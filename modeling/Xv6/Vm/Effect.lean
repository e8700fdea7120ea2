import Xv6.Vm.System

/-!
# What a call does

There is one rule for each function of `Xv6.Vm.State` and `Xv6.Vm.Shm`: the state it ends in, where
the pages have gone, and why it can panic. `Effect` puts them together for the calls of
a live process.
What holds of a call, or of a run, is read off from there.

The rules need two things that hold in every run: a process structure that is not in use is
empty, and no heap reaches the trapframe.
-/

namespace Xv6.Vm

open Outcome
open Function
open Multiset (add_cons coe_add coe_nil coe_nodup cons_coe mem_add singleton_add)
open State (set_proc_other set_proc_self)

/-! ## Processes and their pages -/

def Proc.leaf (p : Proc) (v : Nat) : Option Pte := p.pagetable.bind fun pt => pt.lookup v

/-- The pages the kernel keeps for a process. -/
def Proc.kpages (p : Proc) : Multiset Nat :=
  p.trapframe.elim 0 (fun page => {page}) + p.pagetable.elim 0 PageTable.pages

/-- The pages that are counted for a process: those the kernel keeps for it, and the user
pages, if it is not a thread. -/
def Proc.pages (P : Proc) : Multiset Nat :=
  P.kpages + if P.isThread then 0 else userPages P.leaf (npg P.sz)

/-- The process has no memory. -/
def Proc.Empty (P : Proc) : Prop :=
  P.pagetable = none ∧ P.trapframe = none ∧ P.sz = 0 ∧ P.isThread = false

/-- A process structure that is not in use is empty. -/
def State.Blank (s : State) : Prop := ∀ q, (s.proc q).state = .unused → (s.proc q).Empty

/-- No heap reaches the trapframe. -/
def State.Sized (s : State) : Prop :=
  ∀ q, (s.proc q).pagetable.isSome → npg (s.proc q).sz ≤ trapframeVpn

/-- Only fields that have nothing to do with memory change. -/
structure Proc.SameMemory (P P' : Proc) : Prop where
  size : P'.sz = P.sz
  table : P'.pagetable = P.pagetable
  frame : P'.trapframe = P.trapframe
  thread : P'.isThread = P.isThread
  pid : P'.pid = P.pid
  unused : P'.state = .unused ↔ P.state = .unused

section Processes

variable {P P' : Proc} {s : State} {p : Slot}

theorem Proc.leaf_eq (table : P.pagetable = some pt) : P.leaf = pt.lookup := by
  funext v
  unfold Proc.leaf
  rw [table]
  rfl

theorem Proc.leaf_none (table : P.pagetable = none) (v : Nat) : P.leaf v = none := by
  unfold Proc.leaf
  rw [table]
  rfl

theorem Proc.table_of_leaf (mapped : P.leaf v = some pte) : ∃ pt, P.pagetable = some pt := by
  cases table : P.pagetable with
  | none =>
    rw [Proc.leaf_none table] at mapped
    cases mapped
  | some pt => exact ⟨pt, rfl⟩

theorem Proc.pages_table (table : P.pagetable = some pt) :
    P.pages = P.trapframe.elim 0 (fun page => {page}) + pt.pages +
      if P.isThread then 0 else userPages pt.lookup (npg P.sz) := by
  unfold Proc.pages Proc.kpages
  rw [table, Proc.leaf_eq table, Option.elim_some]

theorem Proc.pages_no_table (table : P.pagetable = none) :
    P.pages = P.trapframe.elim 0 fun page => {page} := by
  unfold Proc.pages Proc.kpages
  rw [table, userPages_none fun v _ => Proc.leaf_none table v, ite_self, add_zero, Option.elim_none,
    add_zero]

theorem Proc.pages_empty (empty : P.Empty) : P.pages = 0 := by
  rw [Proc.pages_no_table empty.1, empty.2.1]
  rfl

theorem Proc.kpages_empty (empty : P.Empty) : P.kpages = 0 := by
  unfold Proc.kpages
  rw [empty.1, empty.2.1]
  rfl

theorem Proc.cleared_empty (P : Proc) : P.cleared.Empty := ⟨rfl, rfl, rfl, rfl⟩

theorem Proc.SameMemory.refl (P : Proc) : P.SameMemory P := ⟨rfl, rfl, rfl, rfl, rfl, Iff.rfl⟩

theorem Proc.SameMemory.leaf (same : P.SameMemory P') : P'.leaf = P.leaf := by
  unfold Proc.leaf
  rw [same.table]

theorem Proc.SameMemory.pages (same : P.SameMemory P') : P'.pages = P.pages := by
  unfold Proc.pages Proc.kpages
  rw [same.leaf, same.size, same.table, same.frame, same.thread]

theorem State.image_some {image : Image} (memory : s.image p = some image) :
    (s.proc p).pagetable = some image.pagetable ∧ (s.proc p).sz = image.sz ∧
      s.kmem = image.kmem := by
  obtain ⟨pt, table, made⟩ := Option.map_eq_some_iff.mp memory
  subst made
  exact ⟨table, rfl, rfl⟩

theorem State.Sized.image (sized : s.Sized) {image : Image} (memory : s.image p = some image) :
    npg image.sz ≤ trapframeVpn := by
  obtain ⟨table, size, _⟩ := State.image_some memory
  rw [← size]
  refine sized p ?_
  rw [table]
  rfl

theorem State.set_set (s : State) (p : Slot) (P P' : Proc) (k k' : Kmem) :
    (s.set p P k).set p P' k' = s.set p P' k' := by
  unfold State.set
  rw [update_idem]

theorem freeproc_ends (s : State) (p : Slot)
    (fits : (s.proc p).pagetable.isSome → npg (s.proc p).sz ≤ trapframeVpn) :
    Ends (fun e => e = .kfree ∧ Unfit s.kmem (s.proc p).pages ∨
        e = .freewalkLeaf ∧ Leftover (s.proc p).leaf (npg (s.proc p).sz))
      (fun s' => ∃ k, s' = s.set p (s.proc p).cleared k ∧ s.kmem.Freed (s.proc p).pages k)
      (freeproc s p) := by
  generalize isFrame : (s.proc p).trapframe.elim (0 : Multiset Nat) (fun page => {page}) = frame
  have first : Ends (fun e => e = .kfree ∧ Unfit s.kmem frame) (s.kmem.Freed frame)
      (freeTrapframe (s.proc p) s.kmem) := by
    rw [← isFrame]
    unfold freeTrapframe
    split
    · next absent =>
      rw [absent]
      exact .ok (.refl _)
    · next page present =>
      rw [present, Option.elim_some]
      refine (s.kmem.kfree_fit page).mono
        (fun e ⟨same, unfit⟩ => ⟨same, page, Multiset.mem_singleton_self page, unfit⟩) ?_
      intro k ⟨free, within⟩
      exact ⟨by rw [free, ← cons_coe, singleton_add], within⟩
  cases table : (s.proc p).pagetable with
  | none =>
    rw [Proc.pages_no_table table, isFrame]
    refine (first.errors fun e unfit => .inl unfit).bind ?_
    intro k freed
    refine .bind_ok ?_ (.ok ⟨k, rfl, freed⟩)
    unfold freePagetable
    rw [table]
  | some pt =>
    have fits := fits (by rw [table]; rfl)
    rw [Proc.pages_table table, isFrame, Proc.leaf_eq table, add_assoc]
    refine (first.errors fun e ⟨same, x, mem, unfit⟩ =>
      .inl ⟨same, x, mem_add.mpr (.inl mem), unfit⟩).bind ?_
    intro k freed
    have second : Ends (fun e => e = .kfree ∧ Unfit k (pt.pages +
          if (s.proc p).isThread then 0 else userPages pt.lookup (npg (s.proc p).sz)) ∨
        e = .freewalkLeaf ∧ Leftover pt.lookup (npg (s.proc p).sz))
        (k.Freed (pt.pages +
          if (s.proc p).isThread then 0 else userPages pt.lookup (npg (s.proc p).sz)))
        (freePagetable (s.proc p) k) := by
      unfold freePagetable
      rw [table]
      split
      · exact takedown_ends pt k fits false
      · exact procFreepagetable_ends pt k fits
    refine (second.errors ?_).bind fun k' freed' => .ok ⟨k', rfl, freed.trans freed'⟩
    rintro e (⟨same, unfit⟩ | left)
    · obtain ⟨x, mem, unfit⟩ := unfit.before freed.within
      exact .inl ⟨same, x, mem_add.mpr (.inr mem), unfit⟩
    · exact .inr left

end Processes

/-! ## New processes and threads -/

/-- A process structure as `allocproc` takes it. -/
def State.claim (s : State) (np : Slot) : Proc :=
  { s.proc np with pid := s.nextpid, state := .used, ctime := s.ticks, rtime := 0, etime := 0 }

/-- The next pid is given out, and process structure `np` and the allocator change. -/
def State.enter (s : State) (np : Slot) (P : Proc) (k : Kmem) : State :=
  ({ s with nextpid := s.nextpid + 1 } : State).set np P k

/-- The free list has the same pages as before, and only their content has changed. -/
structure Kmem.Restored (k k' : Kmem) : Prop where
  free : (k'.free : Multiset Nat) = k.free
  within : k.Within k.free k'

/-- What the pages below `top` of a new process or thread are: a copy, or the same pages. -/
def Filled (thread : Bool) (k k' : Kmem) (old : PageTable) (leaf : Nat → Option Pte) (top : Nat)
    (leaf' : Nat → Option Pte) : Prop :=
  if thread then ∀ v, leaf' v = if v < top then old.lookup v else leaf v
    else Laid k k' (copyOf old) leaf 0 top leaf'

/-- What `uvmcopy` does to the page table of a new process, and `uvmshare` to that of a new
thread. -/
def Fills (thread : Bool)
    (share : PageTable → PageTable → Kmem → Nat → Except Panic (PageTable × Kmem × Bool)) : Prop :=
  ∀ old new k sz, npg sz ≤ trapframeVpn → (∀ v < npg sz, new.lookup v = none) →
    Ends (fun e => e = .kfree ∧ Unfit k k.free)
      (fun (new', k', ok) => k.Within k.free k' ∧
        if ok then
          (k'.free + new'.pages + if thread then 0 else userPages new'.lookup (npg sz)) =
              k.free + new.pages ∧ Filled thread k k' old new.lookup (npg sz) new'.lookup
        else (k'.free : Multiset Nat) + new'.pages = k.free + new.pages ∧ new'.lookup = new.lookup)
      (share old new k sz)

/-- What a new process or thread of `p` has got: a trapframe, a page table, and pages. -/
structure Made (s : State) (p : Slot) (thread : Bool) (old : PageTable) (page : Nat)
    (new : PageTable) (k : Kmem) : Prop where
  pages : page ::ₘ (k.free + new.pages +
    if thread then 0 else userPages new.lookup (npg (s.proc p).sz)) = s.kmem.free
  within : s.kmem.Within s.kmem.free k
  filled : Filled thread s.kmem k old (newLeaf s.trampoline page) (npg (s.proc p).sz) new.lookup

/-- What `kfork` and `kclone` do: there is no process structure, or no memory, or there is a new
process. -/
inductive Spawns (regs : Nat → Kmem → Kmem) (thread : Bool) (s : State) (p : Slot) :
    State → Option Nat → Prop
  | full : s.unusedSlot = none → Spawns regs thread s p s none
  | undone {np : Slot} {k : Kmem} : s.unusedSlot = some np → s.kmem.Restored k →
    Spawns regs thread s p (s.enter np (s.claim np).cleared k) none
  | made {np : Slot} {old new : PageTable} {frame page : Nat} {k : Kmem} :
    s.unusedSlot = some np → (s.proc p).pagetable = some old → (s.proc p).trapframe = some frame →
    Made s p thread old page new k →
    Spawns regs thread s p (s.enter np
      { s.claim np with
        trapframe := some page, pagetable := some new, sz := (s.proc p).sz, isThread := thread,
        parent := some p, state := .runnable }
      (regs page (k.copyPage page frame))) (some s.nextpid)

section Spawn

variable {s : State} {p np : Slot}

theorem State.unusedSlot_state (found : s.unusedSlot = some np) : (s.proc np).state = .unused := by
  simpa using List.find?_some found

theorem uvmcopy_fills : Fills false uvmcopy := by
  intro old new k sz fits empty
  have copy := uvmcopyFrom_ends (H := k.free) old (npg sz) 0 new k
    (by rw [Nat.zero_add]; exact Nat.le_trans fits (by decide))
    (fun v _ high => empty v (by omega)) (fun _ mem => mem)
    fun v _ _ low => absurd low (Nat.not_lt_zero v)
  rw [Nat.zero_add] at copy
  apply copy.imp
  rintro ⟨new', k', ok⟩ (⟨rfl, drew, laid⟩ | ⟨rfl, moved, cleared⟩)
  · exact ⟨drew.within, drew.pages.trans (add_zero _), laid⟩
  · exact ⟨moved.within, add_right_cancel (b := 0) moved.pages, cleared⟩

theorem uvmshare_fills : Fills true uvmshare := by
  intro old new k sz fits empty
  refine (uvmshareFrom_ends old (npg sz) 0 new k
    (by rw [Nat.zero_add]; exact Nat.le_trans fits (by decide))
    fun v _ high => empty v (by omega)).mono (fun _ none => none.elim) ?_
  intro ⟨new', k', ok⟩ ⟨walked, done⟩
  refine ⟨walked.within, ?_⟩
  cases ok with
  | true =>
    refine ⟨(add_zero _).trans walked.pages, fun v => ?_⟩
    rw [done v, Nat.zero_add]
    exact if_congr (and_iff_right (Nat.zero_le v)) rfl rfl
  | false => exact ⟨walked.pages, done.trans (clearRange_zero new.lookup 0)⟩

theorem freeproc_undo (same : P.cleared = (s.claim np).cleared) (size : P.sz = 0)
    (pages : (k.free : Multiset Nat) + P.pages = s.kmem.free)
    (within : s.kmem.Within s.kmem.free k) (noLeft : ¬ Leftover P.leaf (npg P.sz)) :
    Ends (fun e => e = .kfree ∧ Unfit s.kmem s.kmem.free)
      (fun s' => ∃ k', s' = s.enter np (s.claim np).cleared k' ∧ s.kmem.Restored k')
      (freeproc (s.enter np P k) np) := by
  have self : (s.enter np P k).proc np = P := set_proc_self _ _ _ _
  have kmem : (s.enter np P k).kmem = k := rfl
  have sub : P.pages ⊆ s.kmem.free := by
    rw [← pages]
    exact Multiset.subset_of_le (Multiset.le_add_left _ _)
  have rule := freeproc_ends (s.enter np P k) np fun _ => by
    rw [self, size]
    exact Nat.zero_le _
  rw [self, kmem] at rule
  refine rule.mono ?_ ?_
  · rintro e (⟨same, x, mem, unfit⟩ | ⟨_, left⟩)
    · exact ⟨same, Unfit.before ⟨x, sub mem, unfit⟩ within⟩
    · exact absurd left noLeft
  · rintro s' ⟨k', rfl, freed⟩
    refine ⟨k', ?_, ?_, within.trans (freed.within.mono sub)⟩
    · rw [same]
      exact State.set_set _ _ _ _ _ _
    · rw [freed.free, ← pages, add_comm]

/-- What `allocproc` does in the slot it has found. -/
inductive Allocates (s : State) (np : Slot) : State → Option Slot → Prop
  | undone {k : Kmem} : s.kmem.Restored k →
    Allocates s np (s.enter np (s.claim np).cleared k) none
  | made {page : Nat} {pt : PageTable} {k : Kmem} :
    page ::ₘ ((k.free : Multiset Nat) + pt.pages) = s.kmem.free → s.kmem.Within s.kmem.free k →
    pt.lookup = newLeaf s.trampoline page →
    Allocates s np (s.enter np { s.claim np with trapframe := some page, pagetable := some pt } k)
      (some np)

theorem allocprocAt_ends (empty : (s.proc np).Empty) :
    Ends (fun e => e = .kfree ∧ Unfit s.kmem s.kmem.free)
      (fun (s', made) => Allocates s np s' made) (allocprocAt s np) := by
  have noLeft {P : Proc} (none : P.pagetable = none) : ¬ Leftover P.leaf (npg P.sz) := by
    rintro ⟨v, pte, _, _, _, mapped⟩
    rw [Proc.leaf_none none] at mapped
    cases mapped
  unfold allocprocAt
  dsimp only
  split
  · next full =>
    have none : (s.claim np).pages = 0 := Proc.pages_empty empty
    refine (freeproc_undo (s := s) (P := s.claim np) (k := s.kmem) rfl empty.2.2.1
      (by rw [none, add_zero]) (.refl _ _) (noLeft empty.1)).bind ?_
    rintro s' ⟨k, rfl, restored⟩
    exact .ok (.undone restored)
  · next page k alloc =>
    have free := Kmem.kalloc_free alloc
    have isPage : page ∈ (s.kmem.free : Multiset Nat) := by
      rw [free]
      exact List.mem_cons_self
    have sub : (k.free : Multiset Nat) ⊆ s.kmem.free := by
      rw [free]
      exact fun x mem => List.mem_cons_of_mem _ mem
    have taken : s.kmem.Within s.kmem.free k :=
      (Kmem.kalloc_within alloc).mono (Multiset.singleton_subset.mpr isPage)
    refine ((procPagetable_ends s.trampoline page k).errors fun e ⟨same, x, mem, unfit⟩ =>
      ⟨same, Unfit.before ⟨x, sub mem, unfit⟩ taken⟩).bind ?_
    intro ⟨made, k'⟩ ⟨sum, within, leaf⟩
    have wrote := taken.trans (within.mono sub)
    have all : page ::ₘ ((k'.free : Multiset Nat) + made.elim 0 PageTable.pages) = s.kmem.free := by
      rw [sum, free]
      rfl
    cases made with
    | none =>
      refine (freeproc_undo (s := s)
        (P := { s.claim np with trapframe := some page, pagetable := none }) (k := k') rfl
        empty.2.2.1 ?_ wrote (noLeft rfl)).bind ?_
      · rw [Proc.pages_no_table rfl, Option.elim_some, add_comm, singleton_add, ← all,
          Option.elim_none, add_zero]
      · rintro s' ⟨k, rfl, restored⟩
        exact .ok (.undone restored)
    | some pt => exact .ok (.made all wrote (leaf pt rfl))

theorem spawn_ends (fills : Fills thread share) (regs : Nat → Kmem → Kmem) (blank : s.Blank)
    (sized : s.Sized) (inUse : (s.proc p).state ≠ .unused) :
    Ends (fun e => e = .kfree ∧ Unfit s.kmem s.kmem.free ∨
        e = .fault ∧ ((s.proc p).pagetable = none ∨ (s.proc p).trapframe = none))
      (fun (s', value) => Spawns regs thread s p s' value) (spawn share regs thread s p) := by
  unfold spawn allocproc
  split
  · next full => exact .bind_ok rfl (.ok (.full full))
  rename_i np found
  have unused := State.unusedSlot_state found
  have empty := blank np unused
  have other : p ≠ np := by
    rintro rfl
    exact inUse unused
  refine ((allocprocAt_ends empty).errors fun e unfit => .inl unfit).bind ?_
  intro ⟨s1, made⟩ allocated
  cases allocated with
  | undone restored => exact .ok (.undone found restored)
  | @made page pt k pages within leaf =>
    have caller (P : Proc) : (s.enter np P k).proc p = s.proc p := set_proc_other _ _ _ other
    have self (P : Proc) : (s.enter np P k).proc np = P := set_proc_self _ _ _ _
    dsimp only
    rw [caller, self]
    cases table : (s.proc p).pagetable with
    | none => exact .error (.inr ⟨rfl, .inl rfl⟩)
    | some old =>
      cases framed : (s.proc p).trapframe with
      | none => exact .error (.inr ⟨rfl, .inr rfl⟩)
      | some frame =>
        have fits : npg (s.proc p).sz ≤ trapframeVpn := sized p (by rw [table]; rfl)
        have hole (v : Nat) (low : v < npg (s.proc p).sz) : pt.lookup v = none := by
          rw [leaf]
          exact newLeaf_low (Nat.lt_of_lt_of_le low fits)
        have sub : (k.free : Multiset Nat) ⊆ s.kmem.free := by
          rw [← pages]
          exact fun x mem => Multiset.mem_cons_of_mem (mem_add.mpr (.inl mem))
        refine ((fills old pt k (s.proc p).sz fits hole).errors ?_).bind ?_
        · rintro e ⟨same, x, mem, unfit⟩
          exact .inl ⟨same, Unfit.before ⟨x, sub mem, unfit⟩ within⟩
        intro ⟨new, k', ok⟩ ⟨within', done⟩
        have wrote := within.trans (within'.mono sub)
        cases ok with
        | true =>
          obtain ⟨sum, filled⟩ := done
          have isMade : Made s p thread old page new k' := by
            refine ⟨by rw [sum, pages], wrote, ?_⟩
            rw [← leaf]
            cases thread with
            | true => exact filled
            | false =>
              refine Laid.earlier filled sub (fun nodup => ?_) within
              rw [← coe_nodup, ← pages] at nodup
              exact coe_nodup.mp (Multiset.nodup_add.mp (Multiset.nodup_cons.mp nodup).2).1
          have result : Spawns regs thread s p _ _ := .made found table framed isMade
          unfold State.enter at result ⊢
          rw [State.set_set]
          exact .ok result
        | false =>
          obtain ⟨sum, same⟩ := done
          have size : (s.claim np).sz = 0 := empty.2.2.1
          have undo := freeproc_undo (s := s)
            (P := { s.claim np with trapframe := some page, pagetable := some new }) (k := k')
            (rfl : _ = (s.claim np).cleared) size ?_ wrote ?_
          · unfold State.enter at undo ⊢
            rw [if_neg Bool.false_ne_true, State.set_set]
            refine (undo.errors fun e unfit => .inl unfit).bind ?_
            rintro s' ⟨k, rfl, restored⟩
            exact .ok (.undone found restored)
          · rw [Proc.pages_table rfl, Option.elim_some]
            rw [size, npg_zero, userPages_zero, ite_self, add_zero, ← pages, ← sum,
              singleton_add, add_cons]
          · rw [Proc.leaf_eq rfl, same, leaf]
            rw [size, npg_zero]
            intro left
            have plain : Shape _ 0 (fun _ => False) fun _ => False := Shape.new s.trampoline page
            obtain ⟨_, none⟩ := plain.leftover left
            exact none

end Spawn

/-! ## Exit, wait and page faults -/

def State.doom (s : State) (p : Slot) : State := s.set p { s.proc p with killed := true } s.kmem

/-- What `copyout` of a status does to the memory of its caller: nothing is faulted in that is
there. -/
def Reported (addr : Nat) (image image' : Image) : Prop :=
  image.Touched image' ∧ ((addr ≠ 0 → Ready image.pagetable.lookup image.sz addr 4) →
    image'.pagetable = image.pagetable ∧ image'.kmem.free = image.kmem.free)

/-- What `kwait`, `waitx` and `kjoin` do, if the caller does not go to sleep. -/
inductive Waits (threads : Bool) (addr : Nat) (s : State) (p : Slot) : State → Option Nat → Prop
  | nothing : Waits threads addr s p s none
  | failed {image image' : Image} : s.image p = some image → Reported addr image image' →
    Waits threads addr s p (s.setImage p image') none
  | reaped {child : Slot} {image image' : Image} {k : Kmem} :
    s.zombieChild p threads = some child → child ≠ p → s.image p = some image →
    Reported addr image image' → image'.kmem.Freed (s.proc child).pages k →
    Waits threads addr s p ((s.setImage p image').set child (s.proc child).cleared k)
      (some (s.proc child).pid)

/-- What a page fault does: a page is mapped where there was none, or the process is killed and
exits. -/
inductive Faults (va : Nat) (s : State) (p : Slot) : State → Option Nat → Prop
  | served {image image' : Image} : s.image p = some image → image.Touched image' → va < image.sz →
    image.pagetable.lookup (va / PGSIZE) = none → Faults va s p (s.setImage p image') (some 0)
  | killed {image image' : Image} : s.image p = some image → image.Touched image' →
    image'.pagetable.lookup = image.pagetable.lookup →
    ((va < image.sz → (image.pagetable.lookup (va / PGSIZE)).isSome) → image' = image) →
    Faults va s p (((s.setImage p image').doom p).exited p (-1)) none

section Exit

variable {s : State} {p q : Slot}

theorem kexit_ends (s : State) (p : Slot) (status : Int) :
    Ends (· = .initExiting) (· = s.exited p status) (kexit s p status) := by
  unfold kexit
  split
  · exact .error rfl
  · exact .ok rfl

theorem State.exited_state (s : State) (p q : Slot) (status : Int) :
    ((s.exited p status).proc q).state = if q = p then .zombie else (s.proc q).state := by
  unfold State.exited
  dsimp only
  by_cases here : q = p
  · rw [if_pos here, if_pos here]
  · rw [if_neg here, if_neg here]
    split
    · rfl
    · rfl

theorem State.exited_parent (s : State) (p q : Slot) (status : Int) :
    ((s.exited p status).proc q).parent =
      if (s.proc q).parent = some p then s.initproc else (s.proc q).parent := by
  unfold State.exited
  dsimp only
  split
  · split
    · rfl
    · rfl
  · split
    · rfl
    · rfl

theorem State.exited_same (inUse : (s.proc p).state ≠ .unused) (status : Int) (q : Slot) :
    (s.proc q).SameMemory ((s.exited p status).proc q) := by
  suffices fields : ((s.exited p status).proc q).sz = (s.proc q).sz ∧
      ((s.exited p status).proc q).pagetable = (s.proc q).pagetable ∧
      ((s.exited p status).proc q).trapframe = (s.proc q).trapframe ∧
      ((s.exited p status).proc q).isThread = (s.proc q).isThread ∧
      ((s.exited p status).proc q).pid = (s.proc q).pid by
    obtain ⟨size, table, frame, thread, pid⟩ := fields
    refine ⟨size, table, frame, thread, pid, ?_⟩
    rw [State.exited_state]
    by_cases here : q = p
    · rw [if_pos here, here]
      exact ⟨nofun, fun unused => absurd unused inUse⟩
    · rw [if_neg here]
  unfold State.exited
  dsimp only
  split
  · split
    · exact ⟨rfl, rfl, rfl, rfl, rfl⟩
    · exact ⟨rfl, rfl, rfl, rfl, rfl⟩
  · split
    · exact ⟨rfl, rfl, rfl, rfl, rfl⟩
    · exact ⟨rfl, rfl, rfl, rfl, rfl⟩

theorem State.zombieChild_state (found : s.zombieChild p threads = some child) :
    (s.proc child).state = .zombie := by
  have holds := List.find?_some found
  simp only [Bool.and_eq_true, decide_eq_true_eq] at holds
  exact holds.2

theorem reportStatus_ends (image : Image) (addr : Nat) (xstate : Int) :
    Ends (· ≠ .freewalkLeaf) (fun (image', _) => Reported addr image image')
      (reportStatus image addr xstate) := by
  unfold reportStatus
  split
  · exact .ok ⟨.refl image, fun _ => ⟨rfl, rfl⟩⟩
  rename_i nonzero
  refine (copyout_ends none image addr (bytes32 xstate)).bind ?_
  intro ⟨pt, k, ok⟩ ⟨touched, still⟩
  exact .ok ⟨touched, fun ready => still (ready nonzero)⟩

theorem waitFor_ends (sized : s.Sized) (live : (s.proc p).state.live) (threads : Bool)
    (addr : Nat) :
    Ends (fun e => e = .freewalkLeaf → ∃ child, s.zombieChild p threads = some child ∧
        Leftover (s.proc child).leaf (npg (s.proc child).sz))
      (fun result => ∀ s' value, result = some (s', value) → Waits threads addr s p s' value)
      (waitFor threads addr s p) := by
  unfold waitFor
  split
  · next child found =>
    have other : child ≠ p := by
      rintro rfl
      rw [State.zombieChild_state found] at live
      cases live
    split
    · exact .error nofun
    rename_i image memory
    refine ((reportStatus_ends image addr _).errors fun e ne same => absurd same ne).bind ?_
    intro ⟨image', ok⟩ reported
    dsimp only
    split
    · have sameChild : (s.setImage p image').proc child = s.proc child :=
        set_proc_other _ _ _ other
      have rule := freeproc_ends (s.setImage p image') child
        (by rw [sameChild]; exact sized child)
      rw [sameChild] at rule
      refine (rule.errors ?_).bind ?_
      · rintro e (⟨rfl, _⟩ | ⟨_, left⟩)
        · exact nofun
        · exact fun _ => ⟨child, found, left⟩
      · rintro s1 ⟨k, rfl, freed⟩
        refine .ok fun s' value same => ?_
        cases same
        rw [sameChild]
        exact .reaped found other memory reported freed
    · refine .ok fun s' value same => ?_
      cases same
      exact .failed memory reported
  · split
    · refine .ok fun s' value same => ?_
      cases same
      exact .nothing
    · exact .ok nofun

theorem pageFault_ends (s : State) (p : Slot) (va : Nat) :
    Ends (fun e => e ≠ .freewalkLeaf ∧ e ≠ .remap) (fun (s', value) => Faults va s p s' value)
      (pageFault s p va) := by
  unfold pageFault
  split
  · exact .error (by decide)
  rename_i image memory
  refine ((vmfault_ends image.pagetable image.pagetable image.sz image.kmem va).errors ?_).bind ?_
  · rintro e (⟨rfl, _⟩ | ⟨rfl, _⟩ | ⟨_, unmapped, mapped⟩)
    · decide
    · decide
    · rw [unmapped] at mapped
      cases mapped
  intro ⟨pt, k, pa⟩ ⟨moved, leaf, still⟩
  cases pa with
  | some page =>
    obtain ⟨inside, unmapped, leaf⟩ := leaf
    refine .ok (.served memory ⟨⟨rfl, fun v => ?_⟩, moved.pages⟩ inside unmapped)
    rw [leaf]
    by_cases here : v = va / PGSIZE
    · rw [here]
      exact .inr ⟨div_lt_npg inside, unmapped⟩
    · exact .inl (update_of_ne here _ _)
  | none =>
    refine ((kexit_ends _ p (-1)).errors ?_).bind ?_
    · rintro e rfl
      decide
    · rintro s' rfl
      refine .ok (.killed memory ⟨⟨rfl, fun v => .inl (congrFun leaf v)⟩, moved.pages⟩ leaf
        fun mapped => ?_)
      obtain ⟨rfl, rfl, _⟩ := still mapped
      rfl

end Exit

/-! ## `sbrk` -/

/-- What `sbrk(n)` does to the memory of its caller, and whether it succeeds. -/
inductive Breaks (n : Int) (eager : Bool) (image : Image) : Image → Bool → Prop
  | refused : trapframeVpn * PGSIZE < image.sz + n.toNat → 0 ≤ n → Breaks n eager image image false
  | zero : n = 0 → Breaks n eager image image true
  | full {pt : PageTable} {k : Kmem} : eager = true → 0 < n →
    Moved image.kmem.free image.kmem image.pagetable (npg image.sz) k pt (npg image.sz) →
    pt.lookup = image.pagetable.lookup →
    Breaks n eager image { image with pagetable := pt, kmem := k } false
  | grown {pt : PageTable} {k : Kmem} : eager = true → 0 < n →
    image.sz + n.toNat ≤ trapframeVpn * PGSIZE →
    Drew image.kmem image.pagetable (npg image.sz) k pt (npg (image.sz + n.toNat)) →
    Laid image.kmem k (fun _ => some ({ w := true, r := true, u := true }, none))
      image.pagetable.lookup (npg image.sz) (npg (image.sz + n.toNat)) pt.lookup →
    Breaks n eager image { pagetable := pt, sz := image.sz + n.toNat, kmem := k } true
  | shrunk {pt : PageTable} {k : Kmem} {sz : Nat} : n < 0 → sz = min image.sz (addSize image.sz n) →
    Moved (userPages image.pagetable.lookup (npg image.sz)) image.kmem image.pagetable
      (npg image.sz) k pt (npg sz) →
    pt.lookup = clearRange image.pagetable.lookup (npg sz) (npg image.sz - npg sz) →
    Breaks n eager image { pagetable := pt, sz := sz, kmem := k } true
  | lazily : eager = false → 0 ≤ n → image.sz + n.toNat ≤ trapframeVpn * PGSIZE →
    Breaks n eager image { image with sz := image.sz + n.toNat } true

theorem sbrk_ends (fits : npg image.sz ≤ trapframeVpn) (n : Int) (eager : Bool) :
    Ends (fun e => e = .kfree ∨ 0 < n ∧ npg (image.sz + n.toNat) ≤ trapframeVpn ∧
        Blocked image.pagetable.lookup (npg image.sz) (npg (image.sz + n.toNat)) e)
      (fun (image', ok) => Breaks n eager image image' ok) (sbrk image n eager) := by
  have small : npg image.sz ≤ MAXVPN := Nat.le_trans fits (by decide)
  unfold sbrk
  split
  · next asked =>
    unfold growproc
    split
    · next positive =>
      have isEager := asked.resolve_right (by omega)
      split
      · next high => exact .ok (.refused high (Int.le_of_lt positive))
      rename_i high
      refine ((uvmalloc_ends image.pagetable image.kmem small _ _).errors ?_).bind ?_
      · rintro e (⟨rfl, _⟩ | blocked)
        · exact .inl rfl
        · exact .inr ⟨positive, npg_le high, blocked⟩
      rintro ⟨pt, k, sz⟩ (⟨size, drew, laid⟩ | ⟨failed, moved, leaf⟩)
      · rw [Nat.max_eq_right (Nat.le_add_right _ _)] at size
        subst size
        dsimp only
        rw [if_neg (by omega)]
        exact .ok (.grown isEager positive (Nat.le_of_not_lt high) drew laid)
      · dsimp only
        rw [if_pos failed]
        exact .ok (.full isEager positive moved leaf)
    · split
      · next negative =>
        refine ((uvmdealloc_ends (H := userPages image.pagetable.lookup (npg image.sz))
          image.pagetable image.kmem image.sz _ fun v pte _ high mapped =>
            mem_userPages.mpr ⟨v, high, pte, mapped, rfl⟩).errors ?_).bind ?_
        · rintro e (⟨_, high⟩ | ⟨rfl, _⟩)
          · omega
          · exact .inl rfl
        intro ⟨pt, k, sz⟩ ⟨size, moved, cleared⟩
        exact .ok (.shrunk negative size moved cleared)
      · exact .ok (.zero (by omega))
  · next lazy =>
    obtain ⟨notEager, nonneg⟩ := not_or.mp lazy
    split
    · next high => exact .ok (.refused high (by omega))
    · next high =>
      exact .ok (.lazily (Bool.eq_false_iff.mpr notEager) (by omega) (Nat.le_of_not_lt high))

/-! ## Shared memory -/

inductive Gets (s : State) : State → Option Nat → Prop
  | same {value : Option Nat} : Gets s s value
  | failed {k : Kmem} : (k.free : Multiset Nat) = s.kmem.free → Gets s { s with kmem := k } none
  | made {id : Fin NSHM} {seg : Shmseg} {k : Kmem} : s.segtable id = none →
    (k.free : Multiset Nat) + seg.pages = s.kmem.free → seg.pages.length = seg.npages.toNat →
    seg.npages ≤ SHM_MAXPAGES → seg.refcnt = 0 →
    Gets s { s with kmem := k, segtable := update s.segtable id (some seg) } (some id)

/-- A call of `shmattach` that maps pages: the segment, the row of the caller, and its memory. -/
structure AttachAt (s : State) (p : Slot) (shmid : Int) (id : Fin NSHM) (seg : Shmseg)
    (row : Fin NPROC) (image : Image) : Prop where
  found : s.segOf shmid = some (id, seg)
  slot : pidslot (s.proc p).pid = some row
  memory : s.image p = some image
  fits : ¬ ((attachVpn image.sz * PGSIZE : Nat) + seg.npages * PGSIZE) % 2 ^ 64 >
    (trapframeVpn * PGSIZE : Nat)

/-- The pages have been mapped from virtual page `vpn` on, where nothing was mapped. -/
structure Attached (pages : List Nat) (vpn : Nat) (leaf leaf' : Nat → Option Pte) : Prop where
  outside : ∀ v, ¬ (vpn ≤ v ∧ v < vpn + pages.length) → leaf' v = leaf v
  unmapped : ∀ v, vpn ≤ v → v < vpn + pages.length → v < MAXVPN ∧ leaf v = none
  inside : ∀ i page, pages[i]? = some page →
    leaf' (vpn + i) = some { ppn := page, perm := { r := true, w := true, u := true } }

/-- What `shmattach` does: nothing, or it has no memory for tables and unmaps the pages again, or it
maps the pages, counts the reference and records the range. -/
inductive Attaches (shmid : Int) (s : State) (p : Slot) : State → Option Nat → Prop
  | refused : Attaches shmid s p s none
  | undone {id : Fin NSHM} {seg : Shmseg} {row : Fin NPROC} {image : Image} {pt : PageTable}
    {k : Kmem} {n : Nat} : AttachAt s p shmid id seg row image →
    Walked image.kmem image.pagetable k pt → n ≤ seg.pages.length →
    pt.lookup = clearRange image.pagetable.lookup (attachVpn image.sz) n →
    Attaches shmid s p (s.setImage p { image with pagetable := pt, kmem := k }) none
  | attached {id : Fin NSHM} {seg : Shmseg} {row : Fin NPROC} {image : Image} {pt : PageTable}
    {k : Kmem} : AttachAt s p shmid id seg row image →
    Walked image.kmem image.pagetable k pt →
    Attached seg.pages (attachVpn image.sz) image.pagetable.lookup pt.lookup →
    Attaches shmid s p
      (((s.setImage p { image with pagetable := pt, kmem := k }).addRef id 1).record row
        { shmid := id, va := attachVpn image.sz * PGSIZE, npages := seg.npages })
      (some (attachVpn image.sz * PGSIZE))

inductive Detaches (addr : Nat) (s : State) (p : Slot) : State → Option Nat → Prop
  | absent : Detaches addr s p s none
  | detached {row : Fin NPROC} {i : Fin NSHM} {entry : Shmattach} {image : Image} {pt : PageTable} :
    pidslot (s.proc p).pid = some row → s.attachtable row i = some entry → entry.va = addr →
    s.image p = some image → pt.pages = image.pagetable.pages →
    pt.lookup = clearRange image.pagetable.lookup (addr / PGSIZE) entry.npages.toNat →
    Detaches addr s p (((s.setRecord row i none).setImage p
      { image with pagetable := pt }).addRef entry.shmid (-1)) (some 0)

section Shm

variable {s : State} {p : Slot}

theorem Attached.mem (attached : Attached pages vpn leaf leaf') (low : vpn ≤ v)
    (high : v < vpn + pages.length) (mapped : leaf' v = some pte) : pte.ppn ∈ pages := by
  have there : v - vpn < pages.length := by omega
  have is := attached.inside _ _ (List.getElem?_eq_getElem there)
  rw [Nat.add_sub_cancel' low, mapped] at is
  cases is
  exact List.getElem_mem there

theorem kfreeAll_ends (pages : List Nat) : ∀ k : Kmem,
    Ends (· = .kfree) (fun k' : Kmem => (k'.free : Multiset Nat) = k.free + pages)
      (kfreeAll pages k) := by
  induction pages with
  | nil =>
    intro k
    exact .ok (add_zero _).symm
  | cons x rest free =>
    intro k
    refine (k.kfree_ends x).bind ?_
    intro k' freed
    apply (free k').imp
    intro k'' done
    rw [done, freed, ← cons_coe, ← cons_coe, Multiset.cons_add,
      add_cons]

theorem allocPages_ends (n : Nat) : ∀ (pages : List Nat) (k : Kmem),
    Ends (· = .kfree)
      (fun (result : Kmem × Option (List Nat)) =>
        (result.1.free : Multiset Nat) + result.2.elim 0 (fun pages => (pages : Multiset Nat)) =
          k.free + pages ∧
        ∀ pages', result.2 = some pages' → pages'.length = pages.length + n)
      (allocPages n pages k) := by
  induction n with
  | zero =>
    intro pages k
    refine .ok ⟨rfl, fun pages' same => ?_⟩
    cases same
    rfl
  | succ n rest =>
    intro pages k
    unfold allocPages
    split
    · refine (kfreeAll_ends pages k).bind ?_
      intro k' freed
      exact .ok ⟨by rw [freed, Option.elim_none, add_zero], nofun⟩
    rename_i mem k' alloc
    apply (rest (pages ++ [mem]) (k'.memset mem 0)).imp
    intro ⟨k'', made⟩ ⟨sum, length⟩
    refine ⟨?_, fun pages' same => ?_⟩
    · rw [sum, Kmem.memset_free, Kmem.kalloc_free alloc, ← cons_coe,
        ← coe_add, Multiset.coe_singleton, ← singleton_add]
      abel
    · rw [length pages' same, List.length_append]
      simp only [List.length_singleton]
      omega

theorem shmget_ends (s : State) (key size : Int) :
    Ends (· = .kfree) (fun (s', value) => Gets s s' value) (shmget s key size) := by
  unfold shmget
  dsimp only
  split
  · exact .ok .same
  split
  · exact .ok .same
  rename_i short
  split
  · exact .ok .same
  · exact .ok .same
  rename_i id _ found
  have unused : s.segtable id = none := by
    simpa using List.find?_some found
  refine (allocPages_ends _ [] s.kmem).bind ?_
  intro ⟨k, made⟩ ⟨sum, length⟩
  rw [coe_nil, add_zero] at sum
  cases made with
  | none => exact .ok (.failed ((add_zero _).symm.trans sum))
  | some pages =>
    refine .ok (.made unused sum ?_ (Int.not_lt.mp short) rfl)
    rw [length pages rfl, List.length_nil, Nat.zero_add]

/-- The mapping loop of `shmattach`. Where it fails, the part of the range it has mapped is unmapped
again. -/
theorem attachPages_ends (pages : List Nat) : ∀ (vpn : Nat) (pt : PageTable) (k : Kmem),
    va ≤ vpn →
    Ends (Blocked pt.lookup vpn (vpn + pages.length))
      (fun (pt', k', ok) => Walked k pt k' pt' ∧
        if ok then Attached pages vpn pt.lookup pt'.lookup
        else ∃ n, n ≤ pages.length ∧ pt'.lookup = clearRange pt.lookup va (vpn - va + n))
      (attachPages va pages vpn pt k) := by
  induction pages with
  | nil =>
    intro vpn pt k _
    exact .ok ⟨.refl k pt, fun v _ => rfl, fun v low high => absurd high (by simpa using low),
      fun i page there => by simp at there⟩
  | cons pa pages rest =>
    intro vpn pt k le
    refine ((mappages_ends pt k vpn pa _).errors fun e blocked =>
      ⟨vpn, le_rfl, by simp, blocked⟩).bind ?_
    intro ⟨pt1, k1, ok⟩ ⟨walked, small, result⟩
    rw [List.length_cons]
    cases ok with
    | true =>
      obtain ⟨unmapped, leaf⟩ := result
      apply (rest (vpn + 1) pt1 k1 (by omega)).mono
      · rintro e ⟨v, low, high, blocked⟩
        rw [leaf, update_of_ne (by omega)] at blocked
        exact ⟨v, by omega, by omega, blocked⟩
      · intro ⟨pt', k', ok⟩ ⟨walked', result'⟩
        refine ⟨walked.trans walked', ?_⟩
        cases ok with
        | true =>
          refine ⟨fun v out => ?_, fun v low high => ?_, fun i page there => ?_⟩
          · rw [List.length_cons] at out
            rw [result'.outside v (by omega), leaf, update_of_ne (by omega)]
          · rw [List.length_cons] at high
            by_cases here : v = vpn
            · rw [here]
              exact ⟨small, unmapped⟩
            · have := result'.unmapped v (by omega) (by omega)
              rwa [leaf, update_of_ne here] at this
          · cases i with
            | zero =>
              cases there
              rw [Nat.add_zero, result'.outside vpn (by omega), leaf, update_self]
            | succ i =>
              rw [← Nat.add_assoc, Nat.add_right_comm]
              exact result'.inside i page there
        | false =>
          obtain ⟨n, small, cleared⟩ := result'
          refine ⟨n + 1, by omega, ?_⟩
          rw [cleared, leaf]
          funext v
          unfold clearRange
          by_cases inside : va ≤ v ∧ v < va + (vpn - va + (n + 1))
          · rw [if_pos (by omega), if_pos inside]
          · rw [if_neg (by omega), if_neg inside, update_of_ne (by omega)]
    | false =>
      obtain ⟨pt', run, samePages, cleared⟩ := uvmunmap_ok pt1 k1 va (vpn - va) (by omega)
      refine .bind_ok run (.ok ⟨?_, 0, Nat.zero_le _, ?_⟩)
      · exact ⟨by rw [samePages, walked.pages], walked.within, walked.free⟩
      · rw [cleared, show pt1.lookup = _ from result, Nat.add_zero]

theorem shmattach_ends (s : State) (p : Slot) (shmid : Int) :
    Ends (fun e => e = .fault ∨ ∃ id seg row image, AttachAt s p shmid id seg row image ∧
        Blocked image.pagetable.lookup (attachVpn image.sz)
          (attachVpn image.sz + seg.pages.length) e)
      (fun (s', value) => Attaches shmid s p s' value) (shmattach s p shmid) := by
  unfold shmattach
  split
  · exact .ok .refused
  · exact .ok .refused
  · exact .error (.inl rfl)
  rename_i id seg row image found slot memory
  dsimp only
  split
  · exact .ok .refused
  rename_i fits
  have at_ : AttachAt s p shmid id seg row image := ⟨found, slot, memory, fits⟩
  refine ((attachPages_ends seg.pages _ _ _ le_rfl).errors fun e blocked =>
    .inr ⟨id, seg, row, image, at_, blocked⟩).bind ?_
  intro ⟨pt, k, ok⟩ ⟨walked, result⟩
  cases ok with
  | false =>
    obtain ⟨n, small, cleared⟩ := result
    rw [Nat.sub_self, Nat.zero_add] at cleared
    exact .ok (.undone at_ walked small cleared)
  | true => exact .ok (.attached at_ walked result)

theorem State.findRecord_some (found : s.findRecord row addr = some i) :
    ∃ entry, s.attachtable row i = some entry ∧ entry.va = addr := by
  have there := List.find?_some found
  obtain ⟨entry, present, same⟩ := (Option.any_eq_true _ _).mp there
  exact ⟨entry, present, of_decide_eq_true same⟩

theorem shmdetach_ends (s : State) (p : Slot) (addr : Nat) :
    Ends (fun e => e = .walk ∨ e = .fault) (fun (s', value) => Detaches addr s p s' value)
      (shmdetach s p addr) := by
  unfold shmdetach
  split
  · exact .ok .absent
  rename_i row slot
  split
  · exact .ok .absent
  rename_i i found
  obtain ⟨entry, present, va⟩ := State.findRecord_some found
  split
  · next entry' image present' memory =>
    rw [present] at present'
    cases present'
    refine ((uvmunmap_ends image.kmem entry.npages.toNat image.pagetable _).errors
      fun e high => .inl high.1).bind ?_
    rintro ⟨pt, k⟩ ⟨rfl, pages, cleared⟩
    exact .ok (.detached slot present va memory pages cleared)
  · exact .error (.inr rfl)

end Shm

/-- A function on the caller's memory, of which `R` says what it does, and whether it succeeds. -/
inductive Works (R : Image → Image → Bool → Prop) (result : Nat) (s : State) (p : Slot) :
    State → Option Nat → Prop
  | intro {image image' : Image} {ok : Bool} : s.image p = some image → R image image' ok →
    Works R result s p (s.setImage p image') (if ok then some result else none)

/-- What `kexec` does to the memory of its caller. -/
def Execs (image image' : Image) (ok : Bool) : Prop :=
  image'.stock = image.stock ∧ if ok then image'.Plain else image.Kept image'

inductive Kills (s : State) : State → Option Nat → Prop
  | absent : Kills s s none
  | found (q : Slot) :
    Kills s (s.set q { s.proc q with toProc := (s.proc q).toProc.kill } s.kmem) (some 0)

/-- What a call of a live process `p` does, with the new state and the value it returns. -/
def Effect (s : State) (p : Slot) : Call → State → Option Nat → Prop
  | .fork => Spawns (fun frame k => k.setReg frame tfA0 0) false s p
  | .clone fn arg stack =>
    Spawns (fun frame k =>
      ((k.setReg frame tfEpc fn).setReg frame tfA0 arg).setReg frame tfSp stack) true s p
  | .exit status => fun s' value => s' = s.exited p status ∧ value = none
  | .wait addr | .waitx addr => Waits false addr s p
  | .join => Waits true 0 s p
  | .exec _ argv => Works Execs argv.length s p
  | .sbrk n eager => Works (Breaks n eager) (s.proc p).sz s p
  | .kill _ => Kills s
  | .shmget _ _ => Gets s
  | .shmattach shmid => Attaches shmid s p
  | .shmdetach addr => Detaches addr s p
  | .fault va => Faults va s p

/-- A child that is to be reaped has something mapped besides its heap. -/
def State.ReapsLeftover (s : State) (p : Slot) (threads : Bool) : Prop :=
  ∃ child, s.zombieChild p threads = some child ∧
    Leftover (s.proc child).leaf (npg (s.proc child).sz)

/-- Why a call of a live process `p` can panic. -/
def Panics (s : State) (p : Slot) : Call → Panic → Prop
  | .fork | .clone _ _ _ => fun e => e = .kfree ∧ Unfit s.kmem s.kmem.free ∨
      e = .fault ∧ ((s.proc p).pagetable = none ∨ (s.proc p).trapframe = none)
  | .exit _ => fun e => e = .initExiting
  | .wait _ | .waitx _ => fun e => e = .freewalkLeaf → s.ReapsLeftover p false
  | .join => fun e => e = .freewalkLeaf → s.ReapsLeftover p true
  | .exec _ _ => fun e => e = .freewalkLeaf → Leftover (s.proc p).leaf (npg (s.proc p).sz)
  | .sbrk n _ => fun e => e = .kfree ∨ e = .fault ∨ 0 < n ∧
      npg ((s.proc p).sz + n.toNat) ≤ trapframeVpn ∧
      Blocked (s.proc p).leaf (npg (s.proc p).sz) (npg ((s.proc p).sz + n.toNat)) e
  | .kill _ => fun _ => False
  | .shmget _ _ => fun e => e = .kfree
  | .shmattach shmid => fun e => e = .fault ∨ ∃ id seg row image,
      AttachAt s p shmid id seg row image ∧ Blocked image.pagetable.lookup (attachVpn image.sz)
        (attachVpn image.sz + seg.pages.length) e
  | .shmdetach _ => fun e => e = .walk ∨ e = .fault
  | .fault _ => fun e => e ≠ .freewalkLeaf ∧ e ≠ .remap

section Calls

variable {s s' : State} {p : Slot} {c : Call} {value : Option Nat}

theorem inUse_of_live {P : Proc} (live : P.state.live) : P.state ≠ .unused := by
  intro unused
  rw [unused] at live
  cases live

theorem withImage_ends (result : Nat)
    (fault : E .fault)
    (rule : ∀ image, s.image p = some image →
      Ends E (fun (image', ok) => R image image' ok) (run image)) :
    Ends E (fun (s', value) => Works R result s p s' value) (s.withImage p result run) := by
  unfold State.withImage
  split
  · exact .error fault
  · next image memory =>
    refine (rule image memory).bind ?_
    intro ⟨image', ok⟩ done
    exact .ok (.intro memory done)

/-- **What a call does**, and why it can panic. -/
theorem call_ends (blank : s.Blank) (sized : s.Sized) (live : (s.proc p).state.live) (c : Call) :
    Ends (Panics s p c) (fun result => ∀ s' value, result = some (s', value) →
      Effect s p c s' value) (call s p c) := by
  have inUse := inUse_of_live live
  have one {s1 : State} {v : Option Nat} (effect : Effect s p c s1 v) (s' : State)
      (value : Option Nat) (same : some (s1, v) = some (s', value)) :
      Effect s p c s' value := by
    cases same
    exact effect
  cases c with
  | fork => exact (spawn_ends uvmcopy_fills _ blank sized inUse).map fun _ => one
  | clone fn arg stack => exact (spawn_ends uvmshare_fills _ blank sized inUse).map fun _ => one
  | exit status => exact (kexit_ends s p status).map fun _ same => one ⟨same, rfl⟩
  | wait addr | waitx addr => exact waitFor_ends sized live false addr
  | join => exact waitFor_ends sized live true 0
  | exec file argv =>
    refine (withImage_ends (R := Execs) argv.length nofun fun image memory => ?_).map fun _ => one
    obtain ⟨table, size, _⟩ := State.image_some memory
    unfold Panics
    rw [Proc.leaf_eq table, size]
    exact kexec_ends image _ _ file argv (sized.image memory)
  | sbrk n eager =>
    refine (withImage_ends (s.proc p).sz (.inr (.inl rfl)) fun image memory => ?_).map fun _ => one
    obtain ⟨table, size, _⟩ := State.image_some memory
    unfold Panics
    rw [Proc.leaf_eq table, size]
    exact (sbrk_ends (sized.image memory) n eager).errors fun e => Or.imp_right .inr
  | kill pid =>
    refine .ok (one (v := (kkill s pid).2) ?_)
    unfold kkill
    split
    · exact .absent
    · exact .found _
  | shmget key size => exact (shmget_ends s key size).map fun _ => one
  | shmattach shmid => exact (shmattach_ends s p shmid).map fun _ => one
  | shmdetach addr => exact (shmdetach_ends s p addr).map fun _ => one
  | fault va => exact (pageFault_ends s p va).map fun _ => one

end Calls

/-! ## Process by process -/

/-- What a call makes of process `q`; only `np` can be a new one. -/
inductive State.Becomes (s s' : State) (np q : Slot) : Prop
  | same : (s.proc q).SameMemory (s'.proc q) → Becomes s s' np q
  | image (pt : PageTable) (sz : Nat) : (s.proc q).state ≠ .unused → npg sz ≤ trapframeVpn →
    ({ s.proc q with pagetable := some pt, sz := sz } : Proc).SameMemory (s'.proc q) →
    Becomes s s' np q
  | cleared : (s'.proc q).state = .unused → (s'.proc q).Empty → Becomes s s' np q
  | born : q = np → s'.nextpid = s.nextpid + 1 → (s'.proc q).pid = s.nextpid →
    (s'.proc q).state = .runnable → npg (s'.proc q).sz ≤ trapframeVpn → Becomes s s' np q

section Becomes

variable {s s' : State} {p np q : Slot} {c : Call} {value : Option Nat}

theorem Proc.SameMemory.trans {P P1 P2 : Proc} (one : P.SameMemory P1) (two : P1.SameMemory P2) :
    P.SameMemory P2 :=
  ⟨two.size.trans one.size, two.table.trans one.table, two.frame.trans one.frame,
    two.thread.trans one.thread, two.pid.trans one.pid, two.unused.trans one.unused⟩

theorem State.set_same (memory : (s.proc p).SameMemory P) (k : Kmem) (q : Slot) :
    (s.proc q).SameMemory ((s.set p P k).proc q) := by
  by_cases here : q = p
  · rw [here, set_proc_self]
    exact memory
  · rw [set_proc_other _ _ _ here]
    exact .refl _

theorem State.doom_same (s : State) (p q : Slot) : (s.proc q).SameMemory ((s.doom p).proc q) := by
  refine State.set_same ?_ _ q
  exact ⟨rfl, rfl, rfl, rfl, rfl, Iff.rfl⟩

theorem Kills.same (effect : Kills s s' value) (q : Slot) : (s.proc q).SameMemory (s'.proc q) := by
  cases effect with
  | absent => exact .refl _
  | found r =>
    refine State.set_same ?_ _ q
    exact ⟨rfl, rfl, rfl, rfl, rfl, Xv6.Proc.kill_unused _⟩

theorem State.setImage_self (s : State) (p : Slot) (image : Image) : (s.setImage p image).proc p =
    { s.proc p with pagetable := some image.pagetable, sz := image.sz } :=
  set_proc_self _ _ _ _

theorem State.setImage_other (image : Image) (other : q ≠ p) :
    (s.setImage p image).proc q = s.proc q :=
  set_proc_other _ _ _ other

theorem State.killed_same (inUse : (s.proc p).state ≠ .unused) (image : Image) (q : Slot) :
    ((s.setImage p image).proc q).SameMemory
      ((((s.setImage p image).doom p).exited p (-1)).proc q) := by
  refine (State.doom_same _ p q).trans (State.exited_same ?_ (-1) q)
  rw [State.doom, set_proc_self, State.setImage_self]
  exact inUse

theorem State.becomes_image (inUse : (s.proc p).state ≠ .unused) {image : Image}
    (fits : npg image.sz ≤ trapframeVpn)
    (same : ((s.setImage p image).proc q).SameMemory (s'.proc q)) : s.Becomes s' np q := by
  by_cases here : q = p
  · subst here
    rw [State.setImage_self] at same
    exact .image image.pagetable image.sz inUse fits same
  · rw [State.setImage_other image here] at same
    exact .same same

theorem State.becomes_setImage (inUse : (s.proc p).state ≠ .unused) {image : Image}
    (procs : s'.proc = (s.setImage p image).proc) (fits : npg image.sz ≤ trapframeVpn) :
    s.Becomes s' np q := by
  refine State.becomes_image inUse fits ?_
  rw [procs]
  exact .refl _

theorem State.record_proc (s : State) (row : Fin NPROC) (entry : Shmattach) :
    (s.record row entry).proc = s.proc := by
  unfold State.record
  split
  · rfl
  · rfl

theorem Spawns.becomes (sized : s.Sized) (effect : Spawns regs thread s p s' value) :
    ∃ np, ∀ q, s.Becomes s' np q := by
  cases effect with
  | full => exact ⟨p, fun q => .same (.refl _)⟩
  | @undone np k found =>
    refine ⟨np, fun q => ?_⟩
    by_cases here : q = np
    · rw [here]
      refine .cleared ?_ ?_
      · rw [State.enter, set_proc_self]
        rfl
      · rw [State.enter, set_proc_self]
        exact Proc.cleared_empty _
    · refine .same ?_
      rw [State.enter, set_proc_other _ _ _ here]
      exact .refl _
  | @made np old new frame page k found table =>
    refine ⟨np, fun q => ?_⟩
    by_cases here : q = np
    · rw [here]
      refine .born rfl rfl ?_ ?_ ?_
      · rw [State.enter, set_proc_self]
        rfl
      · rw [State.enter, set_proc_self]
      · rw [State.enter, set_proc_self]
        exact sized p (by rw [table]; rfl)
    · refine .same ?_
      rw [State.enter, set_proc_other _ _ _ here]
      exact .refl _

theorem Waits.becomes (sized : s.Sized) (inUse : (s.proc p).state ≠ .unused)
    (effect : Waits threads addr s p s' value) (q : Slot) : s.Becomes s' np q := by
  have fits {image image' : Image} (memory : s.image p = some image)
      (reported : Reported addr image image') : npg image'.sz ≤ trapframeVpn := by
    rw [reported.1.sz]
    exact sized.image memory
  cases effect with
  | nothing => exact .same (.refl _)
  | failed memory reported => exact State.becomes_setImage inUse rfl (fits memory reported)
  | @reaped child _ _ _ _ other memory reported =>
    by_cases here : q = child
    · rw [here]
      refine .cleared ?_ ?_
      · rw [set_proc_self]
        rfl
      · rw [set_proc_self]
        exact Proc.cleared_empty _
    · refine State.becomes_image inUse (fits memory reported) ?_
      rw [set_proc_other _ _ _ here]
      exact .refl _

theorem Breaks.fits (breaks : Breaks n eager image image' ok) (fits : npg image.sz ≤ trapframeVpn) :
    npg image'.sz ≤ trapframeVpn := by
  cases breaks with
  | refused | zero | full => exact fits
  | grown _ _ small | lazily _ _ small => exact npg_le (Nat.not_lt.mpr small)
  | shrunk _ size =>
    rw [size]
    exact Nat.le_trans (npg_mono (Nat.min_le_left _ _)) fits

/-- **What a call makes of each process.** -/
theorem Effect.becomes (sized : s.Sized) (live : (s.proc p).state.live)
    (effect : Effect s p c s' value) : ∃ np, ∀ q, s.Becomes s' np q := by
  have inUse := inUse_of_live live
  cases c with
  | fork | clone fn arg stack => exact Spawns.becomes sized effect
  | exit status =>
    rw [effect.1]
    exact ⟨p, fun q => .same (State.exited_same inUse status q)⟩
  | wait addr | waitx addr | join => exact ⟨p, Waits.becomes sized inUse effect⟩
  | exec file argv =>
    obtain @⟨image, image', ok, memory, _, done⟩ := effect
    refine ⟨p, fun q => State.becomes_setImage inUse rfl ?_⟩
    cases ok with
    | true => exact Shape.top_le done
    | false =>
      have kept : image.Kept image' := done
      rw [kept.sz]
      exact sized.image memory
  | sbrk n eager =>
    obtain ⟨memory, breaks⟩ := effect
    exact ⟨p, fun q => State.becomes_setImage inUse rfl (breaks.fits (sized.image memory))⟩
  | kill pid => exact ⟨p, fun q => .same (Kills.same effect q)⟩
  | shmget key size =>
    refine ⟨p, fun q => .same ?_⟩
    cases effect with
    | same | failed | made => exact .refl _
  | shmattach shmid =>
    refine ⟨p, fun q => ?_⟩
    cases effect with
    | refused => exact .same (.refl _)
    | undone place =>
      have fits := sized.image place.memory
      exact State.becomes_setImage inUse rfl fits
    | attached place =>
      have fits := sized.image place.memory
      exact State.becomes_setImage inUse (State.record_proc _ _ _) fits
  | shmdetach addr =>
    refine ⟨p, fun q => ?_⟩
    cases effect with
    | absent => exact .same (.refl _)
    | detached _ _ _ memory =>
      have fits := sized.image memory
      exact State.becomes_setImage inUse rfl fits
  | fault va =>
    refine ⟨p, fun q => ?_⟩
    cases effect with
    | served memory touched =>
      exact State.becomes_setImage inUse rfl (touched.sz ▸ sized.image memory)
    | killed memory touched =>
      exact State.becomes_image inUse (touched.sz ▸ sized.image memory)
        (State.killed_same inUse _ q)

theorem State.Becomes.empty (step : s.Becomes s' np q)
    (was : (s.proc q).state = .unused → (s.proc q).Empty) (unused : (s'.proc q).state = .unused) :
    (s'.proc q).Empty := by
  cases step with
  | same same =>
    unfold Proc.Empty
    rw [same.table, same.frame, same.size, same.thread]
    exact was (same.unused.mp unused)
  | image pt sz inUse _ same => exact absurd (same.unused.mp unused) inUse
  | cleared _ empty => exact empty
  | born _ _ _ state =>
    rw [state] at unused
    cases unused

theorem State.Becomes.fits (step : s.Becomes s' np q)
    (was : (s.proc q).pagetable.isSome → npg (s.proc q).sz ≤ trapframeVpn)
    (present : (s'.proc q).pagetable.isSome) : npg (s'.proc q).sz ≤ trapframeVpn := by
  cases step with
  | same same =>
    rw [same.table] at present
    rw [same.size]
    exact was present
  | image pt sz _ fits same =>
    rw [same.size]
    exact fits
  | cleared _ empty =>
    rw [empty.1] at present
    cases present
  | born _ _ _ _ fits => exact fits

theorem Effect.blank (blank : s.Blank) (sized : s.Sized) (live : (s.proc p).state.live)
    (effect : Effect s p c s' value) : s'.Blank ∧ s'.Sized := by
  obtain ⟨np, becomes⟩ := effect.becomes sized live
  exact ⟨fun q => (becomes q).empty (blank q), fun q => (becomes q).fits (sized q)⟩

end Becomes

end Xv6.Vm
