import Xv6.Vm.Step

/-!
# Freed pages that are still mapped

A thread maps the pages of the process that has cloned it, and nothing counts how many
page tables map a page. A shrinking `sbrk`, an `exec` and the reaping of a process
that is not a thread free its pages even if another process still runs in them. As long
as no call frees a page that is mapped elsewhere, no live process maps a free page.
-/

namespace Xv6.Vm

open Outcome Ownership

/-- No live process has a user mapping of a page on the free list. -/
def NoFreedPage (m : Machine) : Prop :=
  ∀ q v pte, (m.state.proc q).state.live = true → (m.state.proc q).leaf v = some pte →
    pte.perm.u = true → pte.ppn ∉ m.state.kmem.free

/-- A process forks a child, which makes a thread and exits; the child is reaped, and the
thread runs in free pages. -/
def orphanedThread : List (Slot × Call) :=
  [(1, .clone 0 0 0), (1, .exit 0), (0, .wait 0)]

theorem freed_under_thread :
    ¬ ∀ m, system.ReachableWhen (fun _ l => l.1.2.isShm = false) m → NoFreedPage m := by
  intro always
  obtain ⟨m, reach, state, mapped, free⟩ : ∃ m,
      system.ReachableWhen (fun _ l => l.1.2.isShm = false) m ∧
      (m.state.proc 2).state = .runnable ∧ (m.state.proc 2).leaf 0 =
        some ⟨0x8010E, { r := true, w := true, x := true, u := true }⟩ ∧
      0x8010E ∈ m.state.kmem.free :=
    Lts.exists_of_run forked_start orphanedThread (by decide +kernel)
  exact always m reach 2 0 _ (by rw [state]; rfl) mapped rfl free

/-! ## Runs in which nothing is freed under another process -/

section Invariant

variable {L R : Prop} {s : State}

theorem Inv.segment_outside (inv : Inv L R s) (shared : x ∈ s.segPages) :
    x ∉ (s.kmem.free : Multiset Nat) + ∑ q, (s.proc q).kpages := by
  intro mem
  exact Multiset.disjoint_left.mp (Multiset.nodup_add.mp inv.nodup).2.2 mem shared

/-- **A page that user code can reach** is not free, and not in a page table. -/
theorem Inv.user_outside (inv : Inv L R s) (live : (s.proc q).state.live = true)
    (mapped : (s.proc q).leaf v = some pte) (user : pte.perm.u = true) :
    pte.ppn ∉ (s.kmem.free : Multiset Nat) + ∑ q, (s.proc q).kpages := by
  obtain ⟨pt, table⟩ := Proc.table_of_leaf mapped
  have there := mapped
  rw [Proc.leaf_eq table] at there
  rcases (inv.shape table).leaf_cases there with low | ⟨_, shared⟩ | ⟨_, kernel⟩
  · intro owned
    have held : (s.proc q).heap v = some pte.ppn := heap_eq_some.mpr ⟨low, pte, mapped, rfl⟩
    exact inv.outside ⟨tracked_of_live live, v, held⟩ (Multiset.mem_add.mpr (.inl owned))
  · exact inv.segment_outside shared
  · rw [user] at kernel
    cases kernel

theorem Inv.growsClear (inv : Inv L True s)
    (clear : ∀ n eager, c = .sbrk n eager → ∀ v < npg ((s.proc p).sz + n.toNat),
      npg (s.proc p).sz ≤ v → ¬ s.Attached (s.proc p).pid v) : s.GrowsClear p c := by
  unfold State.GrowsClear
  split
  · next n =>
    intro _ v reached high small
    apply Option.eq_none_iff_forall_ne_some.mpr
    intro pte mapped
    exact clear n false rfl v reached high (inv.attached_of_leaf mapped high small)
  · trivial

theorem State.hasRecord_of_not_shm (other : c.isShm = false) : s.HasRecord p c := by
  cases c with
  | shmattach shmid => cases other
  | _ => trivial

end Invariant

/-- The call is not of `sysshm.c`, and frees no page that another process maps. -/
def FreesOwnPages (m : Machine) (l : Event) : Prop :=
  l.1.2.isShm = false ∧ m.state.FreesPrivate l.1.1 (m.state.entered l.1.1 l.1.2)
  deriving Decidable

theorem inv_of_freesOwnPages (reach : system.ReachableWhen FreesOwnPages m) :
    Inv False True m.state ∧ ∀ row i, m.state.attachtable row i = none := by
  refine reach.invariant (P := fun m => Inv False True m.state ∧
    ∀ row i, m.state.attachtable row i = none) ?_ ?_
  · intro m start
    exact ⟨start.inv.weaken False.elim fun holds => holds, start.detached⟩
  intro m ⟨⟨p, c⟩, value⟩ m' ⟨inv, detached⟩ ⟨other, frees⟩ step
  have entered := m.state.entered_of (P := (Call.isShm · = false)) p rfl other
  have clear : m.state.GrowsClear p (m.state.entered p c) :=
    inv.growsClear fun _ _ _ _ _ _ => State.Detached.not_attached fun row _ => detached row
  refine ⟨inv.step step False.elim frees clear fun _ => State.hasRecord_of_not_shm entered, ?_⟩
  obtain ⟨_, ⟨_, effect⟩ | ⟨same, _⟩⟩ := exec_effect step inv.blank inv.sized
  · rw [(effect.sameShm entered).2]
    exact detached
  · rw [same]
    exact detached

/-- **No page is freed while a live process still maps it**, in every run in which no call
frees a page that another process maps. -/
theorem noFreedPage_of_freesOwnPages {m : Machine} (reach : system.ReachableWhen FreesOwnPages m) :
    NoFreedPage m := by
  intro q v pte live mapped user free
  exact (inv_of_freesOwnPages reach).1.user_outside live mapped user
    (Multiset.mem_add.mpr (.inl free))

/-- The child makes a thread, which exits and is joined, before it exits and is reaped. -/
theorem noFreedPage_joined : ∃ m, system.ReachableWhen FreesOwnPages m ∧
    (m.state.proc 1).state = .unused ∧ NoFreedPage m := by
  obtain ⟨m, reach, reaped⟩ : ∃ m, system.ReachableWhen FreesOwnPages m ∧
      (m.state.proc 1).state = .unused :=
    Lts.exists_of_run forked_start [(1, .clone 0 0 0), (2, .exit 0), (1, .join), (1, .exit 0),
      (0, .wait 0)] (by decide +kernel)
  exact ⟨m, reach, reaped, noFreedPage_of_freesOwnPages reach⟩

end Xv6.Vm
