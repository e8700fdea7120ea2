import Xv6.Vm.Effect

/-!
# Who owns which page

The invariant of the memory system. Every page has one owner: the free list, the
page table or the trapframe of a process, a shared segment, or the heaps that map it. The
heap of a process is tracked until its pages are freed, or until a thread exits, whose
pages `freeproc` does not free.

There are two switches. Where `L` holds there are no threads, and no two heaps have a page
in common. Where `R` holds every attached range is recorded in
`attachtable`. What one system call does to one process is `Space` of that process;
`Inv.space` and `Inv.set` go there and back.
-/

namespace Xv6.Vm

open Outcome Ownership
open State (set_proc_other set_proc_self)

/-! ## Pages of a state -/

/-- The heap of this process is in use: the process has not been freed, and it is not a
thread that has exited. -/
def Proc.Tracked (p : Proc) : Prop :=
  p.state ≠ .unused ∧ ¬ (p.state = .zombie ∧ p.isThread = true)
  deriving Decidable

def Proc.heap (p : Proc) : Nat → Option Nat := Vm.heap p.leaf (npg p.sz)

def State.segPages (s : State) : Multiset Nat :=
  ∑ i, (s.segtable i).elim 0 fun seg => (seg.pages : Multiset Nat)

/-- The kernel's pages other than those of process `p`. -/
def State.rest (s : State) (p : Slot) : Multiset Nat :=
  ∑ q ∈ Finset.univ.erase p, (s.proc q).kpages + s.segPages

/-- The pages that are free, or the kernel's. -/
def State.owned (s : State) : Multiset Nat :=
  s.kmem.free + ∑ q, (s.proc q).kpages + s.segPages

/-- Page `x` is in the heap of process `q`. -/
def State.Maps (s : State) (q : Slot) (x : Nat) : Prop :=
  (s.proc q).Tracked ∧ ∃ v, (s.proc q).heap v = some x

def State.Elsewhere (s : State) (p : Slot) (x : Nat) : Prop :=
  ∃ q, q ≠ p ∧ s.Maps q x

/-- The virtual pages of a record of `attachtable`. -/
def Shmattach.Covers (entry : Shmattach) (v : Nat) : Prop :=
  entry.va / PGSIZE ≤ v ∧ v < entry.va / PGSIZE + entry.npages.toNat
  deriving Decidable

/-- Virtual page `v` is in an attached range recorded for the process `pid`. -/
def State.Attached (s : State) (pid v : Nat) : Prop :=
  ∃ row i entry, pidslot pid = some row ∧ s.attachtable row i = some entry ∧ entry.Covers v

/-- The address space of an image. -/
def Image.Good (X : Multiset Nat) (attached segment foreign apart : Nat → Prop) (cur : Image) :
    Prop :=
  Space (pool cur.kmem cur.pagetable X) cur.pagetable.lookup (npg cur.sz) attached segment foreign
    apart

/-! ## The invariant -/

structure Inv (L R : Prop) (s : State) : Prop where
  /-- No page is free, or the kernel's, twice. -/
  nodup : s.owned.Nodup
  /-- Nor is a page of a heap free, or the kernel's. -/
  outside : ∀ {q x}, s.Maps q x → x ∉ s.owned
  inj : ∀ {q v w x}, (s.proc q).Tracked → (s.proc q).heap v = some x → (s.proc q).heap w = some x →
    v = w
  apart : L → ∀ {q r x}, s.Maps q x → s.Maps r x → q = r
  threads : L → ∀ q, (s.proc q).isThread = false
  shape : ∀ {q pt}, (s.proc q).pagetable = some pt →
    Shape pt.lookup (npg (s.proc q).sz) (fun v => R → s.Attached (s.proc q).pid v) (· ∈ s.segPages)
  /-- A process structure that is not in use is empty. -/
  unused : ∀ {q}, (s.proc q).state = .unused →
    (s.proc q).pagetable = none ∧ (s.proc q).trapframe = none ∧ (s.proc q).sz = 0 ∧
      (s.proc q).isThread = false
  pid_lt : ∀ {q}, (s.proc q).state ≠ .unused → (s.proc q).pid < s.nextpid
  pid_inj : ∀ {q r}, (s.proc q).state ≠ .unused → (s.proc r).state ≠ .unused →
    (s.proc q).pid = (s.proc r).pid → q = r
  /-- An attached range does not reach the trapframe. -/
  ranges : ∀ {row i entry}, s.attachtable row i = some entry → ¬ entry.Covers trapframeVpn
  segments : ∀ {i seg}, s.segtable i = some seg →
    seg.pages.length = seg.npages.toNat ∧ seg.npages ≤ SHM_MAXPAGES

/-! ## One process and the rest -/

section Frame

variable {L R : Prop} {s : State} {p : Slot} {P : Proc} {k : Kmem}

theorem State.owned_eq (s : State) (p : Slot) :
    s.owned = (s.kmem.free : Multiset Nat) + (s.proc p).kpages + s.rest p := by
  unfold State.owned State.rest
  rw [← Finset.add_sum_erase _ _ (Finset.mem_univ p)]
  abel

theorem State.set_rest (s : State) (p : Slot) (P : Proc) (k : Kmem) :
    (s.set p P k).rest p = s.rest p := by
  have others : ∑ q ∈ Finset.univ.erase p, ((s.set p P k).proc q).kpages =
      ∑ q ∈ Finset.univ.erase p, (s.proc q).kpages := by
    apply Finset.sum_congr rfl
    intro q mem
    rw [set_proc_other s P k (Finset.ne_of_mem_erase mem)]
  unfold State.rest
  rw [others]
  rfl

theorem State.set_owned (s : State) (p : Slot) (P : Proc) (k : Kmem) :
    (s.set p P k).owned = (k.free : Multiset Nat) + P.kpages + s.rest p := by
  rw [State.owned_eq _ p, State.set_rest, set_proc_self]
  rfl

theorem State.set_maps_other (other : q ≠ p) (x : Nat) : (s.set p P k).Maps q x ↔ s.Maps q x := by
  unfold State.Maps
  rw [set_proc_other s P k other]

/-- **One process in the rest of the system**: from the pages of the others to those of
all. -/
theorem Inv.set (inv : Inv L R s)
    (nodup : ((k.free : Multiset Nat) + P.kpages + s.rest p).Nodup)
    (others : ∀ x, s.Elsewhere p x → x ∉ (k.free : Multiset Nat) + P.kpages + s.rest p)
    (own : P.Tracked → Owned ((k.free : Multiset Nat) + P.kpages + s.rest p) P.heap
      (s.Elsewhere p) fun x => L ∧ s.Elsewhere p x)
    (shape : ∀ pt, P.pagetable = some pt →
      Shape pt.lookup (npg P.sz) (fun v => R → s.Attached P.pid v) (· ∈ s.segPages))
    (unused : P.state = .unused →
      P.pagetable = none ∧ P.trapframe = none ∧ P.sz = 0 ∧ P.isThread = false)
    (pid_lt : P.state ≠ .unused → P.pid < s.nextpid)
    (pid_new : P.state ≠ .unused → ∀ q, q ≠ p → (s.proc q).state ≠ .unused →
      (s.proc q).pid ≠ P.pid)
    (thread : L → P.isThread = false) :
    Inv L R (s.set p P k) where
  nodup := by
    rw [State.set_owned]
    exact nodup
  outside {q x} maps := by
    rw [State.set_owned]
    by_cases same : q = p
    · subst same
      obtain ⟨tracked, v, held⟩ := maps
      rw [set_proc_self] at tracked held
      exact (own tracked).outside held
    · exact others x ⟨q, same, (State.set_maps_other same x).mp maps⟩
  inj {q v w x} tracked held held' := by
    by_cases same : q = p
    · subst same
      rw [set_proc_self] at tracked held held'
      exact (own tracked).inj held held'
    · rw [set_proc_other s P k same] at tracked held held'
      exact inv.inj tracked held held'
  apart alone {q r x} maps maps' := by
    have notBoth {q : Slot} (other : q ≠ p) (maps : (s.set p P k).Maps q x)
        (maps' : (s.set p P k).Maps p x) : False := by
      obtain ⟨tracked, v, held⟩ := maps'
      rw [set_proc_self] at tracked held
      exact (own tracked).own_apart held ⟨alone, q, other, (State.set_maps_other other x).mp maps⟩
    by_cases same : q = p
    · by_cases same' : r = p
      · rw [same, same']
      · rw [same] at maps
        exact (notBoth same' maps' maps).elim
    by_cases same' : r = p
    · rw [same'] at maps'
      exact (notBoth same maps maps').elim
    · exact inv.apart alone ((State.set_maps_other same x).mp maps)
        ((State.set_maps_other same' x).mp maps')
  threads alone q := by
    by_cases same : q = p
    · rw [same, set_proc_self]
      exact thread alone
    · rw [set_proc_other s P k same]
      exact inv.threads alone q
  shape {q pt} table := by
    by_cases same : q = p
    · subst same
      rw [set_proc_self] at table ⊢
      exact shape pt table
    · rw [set_proc_other s P k same] at table ⊢
      exact inv.shape table
  unused {q} state := by
    by_cases same : q = p
    · subst same
      rw [set_proc_self] at state ⊢
      exact unused state
    · rw [set_proc_other s P k same] at state ⊢
      exact inv.unused state
  pid_lt {q} state := by
    by_cases same : q = p
    · subst same
      rw [set_proc_self] at state ⊢
      exact pid_lt state
    · rw [set_proc_other s P k same] at state ⊢
      exact inv.pid_lt state
  pid_inj {q r} state state' same := by
    by_cases atq : q = p
    · by_cases atr : r = p
      · rw [atq, atr]
      · subst atq
        rw [set_proc_self] at state same
        rw [set_proc_other s P k atr] at state' same
        exact (pid_new state r atr state' same.symm).elim
    · rw [set_proc_other s P k atq] at state same
      by_cases atr : r = p
      · subst atr
        rw [set_proc_self] at state' same
        exact (pid_new state' q atq state same).elim
      · rw [set_proc_other s P k atr] at state' same
        exact inv.pid_inj state state' same
  ranges entry := inv.ranges entry
  segments present := inv.segments present

/-- The pages around the page table of `p`: its trapframe and the rest of the kernel. -/
def State.around (s : State) (p : Slot) : Multiset Nat :=
  (s.proc p).trapframe.elim 0 (fun page => {page}) + s.rest p

theorem State.owned_pool (table : (s.proc p).pagetable = some pt) :
    s.owned = pool s.kmem pt (s.around p) := by
  rw [State.owned_eq s p, Proc.kpages, table, Option.elim_some]
  unfold pool State.around
  abel

theorem Proc.heap_eq (table : P.pagetable = some pt) : P.heap = Vm.heap pt.lookup (npg P.sz) := by
  unfold Proc.heap
  rw [Proc.leaf_eq table]

theorem Inv.elsewhere_outside (inv : Inv L R s) (away : s.Elsewhere p x) : x ∉ s.owned := by
  obtain ⟨q, _, maps⟩ := away
  exact inv.outside maps

/-- **One process in the rest of the system**: the address space of a process. -/
theorem Inv.good (inv : Inv L R s) (tracked : (s.proc p).Tracked)
    (memory : s.image p = some image) :
    image.Good (s.around p) (fun v => R → s.Attached (s.proc p).pid v) (· ∈ s.segPages)
      (s.Elsewhere p) (fun x => L ∧ s.Elsewhere p x) := by
  obtain ⟨pt, table, made⟩ := Option.map_eq_some_iff.mp memory
  subst made
  refine ⟨?_, inv.shape table⟩
  rw [← State.owned_pool table, ← Proc.heap_eq table]
  refine ⟨inv.nodup, ?_, ?_, ?_, ?_⟩
  · intro v x held
    exact inv.outside ⟨tracked, v, held⟩
  · intro v w x held held'
    exact inv.inj tracked held held'
  · intro x away
    exact inv.elsewhere_outside away
  · rintro v x held ⟨alone, q, other, maps⟩
    exact other (inv.apart alone maps ⟨tracked, v, held⟩)

theorem Inv.setImage (inv : Inv L R s) (inUse : (s.proc p).state ≠ .unused)
    (good : image.Good (s.around p) (fun v => R → s.Attached (s.proc p).pid v) (· ∈ s.segPages)
      (s.Elsewhere p) (fun x => L ∧ s.Elsewhere p x)) :
    Inv L R (s.setImage p image) := by
  generalize isP : ({ s.proc p with pagetable := some image.pagetable, sz := image.sz } : Proc) = P
  have table : P.pagetable = some image.pagetable := by rw [← isP]
  have same : (image.kmem.free : Multiset Nat) + P.kpages + s.rest p =
      pool image.kmem image.pagetable (s.around p) := by
    unfold Proc.kpages pool State.around
    rw [← isP, Option.elim_some]
    abel
  unfold State.setImage
  rw [isP]
  refine inv.set ?_ ?_ ?_ ?_ (fun state => ?_) (fun _ => ?_) ?_ fun alone => ?_
  · rw [same]
    exact good.owned.nodup
  · rw [same]
    intro x away
    exact good.owned.foreign_outside away
  · intro _
    rw [same, Proc.heap_eq table, ← isP]
    exact good.owned
  · intro pt' table'
    rw [table] at table'
    cases table'
    rw [← isP]
    exact good.shape
  · rw [← isP] at state
    exact absurd state inUse
  · rw [← isP]
    exact inv.pid_lt inUse
  · intro _ q other state samePid
    rw [← isP] at samePid
    exact other (inv.pid_inj state inUse samePid)
  · rw [← isP]
    exact inv.threads alone p

theorem Inv.same_memory (inv : Inv L R s) (kmem : s'.kmem = s.kmem)
    (segs : s'.segtable = s.segtable) (attached : s'.attachtable = s.attachtable)
    (nextpid : s'.nextpid = s.nextpid) (memory : ∀ q, (s.proc q).SameMemory (s'.proc q))
    (tracked : ∀ q, (s'.proc q).Tracked → (s.proc q).Tracked) : Inv L R s' := by
  have sameHeap (q : Slot) : (s'.proc q).heap = (s.proc q).heap := by
    unfold Proc.heap
    rw [(memory q).leaf, (memory q).size]
  have sameKpages (q : Slot) : (s'.proc q).kpages = (s.proc q).kpages := by
    unfold Proc.kpages
    rw [(memory q).table, (memory q).frame]
  have sameSegs : s'.segPages = s.segPages := by
    unfold State.segPages
    rw [segs]
  have sameOwned : s'.owned = s.owned := by
    unfold State.owned
    rw [kmem, sameSegs, Finset.sum_congr rfl fun q _ => sameKpages q]
  have maps {q : Slot} {x : Nat} (maps : s'.Maps q x) : s.Maps q x := by
    obtain ⟨isTracked, v, held⟩ := maps
    rw [sameHeap] at held
    exact ⟨tracked q isTracked, v, held⟩
  have used {q : Slot} (state : (s'.proc q).state ≠ .unused) : (s.proc q).state ≠ .unused :=
    fun unused => state ((memory q).unused.mpr unused)
  refine ⟨?_, ?_, ?_, ?_, ?_, ?_, ?_, ?_, ?_, ?_, ?_⟩
  · rw [sameOwned]
    exact inv.nodup
  · intro q x mapped
    rw [sameOwned]
    exact inv.outside (maps mapped)
  · intro q v w x isTracked held held'
    rw [sameHeap] at held held'
    exact inv.inj (tracked q isTracked) held held'
  · intro alone q r x mapped mapped'
    exact inv.apart alone (maps mapped) (maps mapped')
  · intro alone q
    rw [(memory q).thread]
    exact inv.threads alone q
  · intro q pt table
    rw [(memory q).table] at table
    rw [(memory q).size, (memory q).pid, sameSegs]
    unfold State.Attached
    rw [attached]
    exact inv.shape table
  · intro q state
    rw [(memory q).size, (memory q).table, (memory q).frame, (memory q).thread]
    exact inv.unused ((memory q).unused.mp state)
  · intro q state
    rw [(memory q).pid, nextpid]
    exact inv.pid_lt (used state)
  · intro q r state state' same
    rw [(memory q).pid, (memory r).pid] at same
    exact inv.pid_inj (used state) (used state') same
  · intro row i entry present
    rw [attached] at present
    exact inv.ranges present
  · intro i seg present
    rw [segs] at present
    exact inv.segments present

theorem Inv.blank (inv : Inv L R s) : s.Blank := fun _ unused => inv.unused unused

theorem Inv.sized (inv : Inv L R s) : s.Sized := by
  intro q present
  obtain ⟨pt, table⟩ := Option.isSome_iff_exists.mp present
  exact (inv.shape table).top_le

end Frame

end Xv6.Vm
