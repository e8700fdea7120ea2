import Xv6.Vm.Freed

/-!
# Taking down an address space

`freeproc` and `exec` unmap the trampoline, the trapframe and the heap, and then walk
the page table, which panics if a mapping is left. What a process has attached and not
detached is such a mapping.

A page table is a value in this model, while in the kernel it is made of pages; that
no user mapping leads to one of them (`Inv.user_outside`) is what
makes the two the same, and the reason why a run here must not free a page that another
process still maps.
-/

namespace Xv6.Vm

open Outcome Ownership

/-- A child attaches a segment and exits; its parent waits for it. -/
def exitAttached : List (Slot × Call) := [(1, .shmattach 0), (1, .exit 0), (0, .wait 0)]

theorem freewalk_leaf_reached : ¬ ∀ m, system.Reachable m → m.panicked ≠ some .freewalkLeaf := by
  intro always
  obtain ⟨m, reach, panicked⟩ : ∃ m, system.Reachable m ∧ m.panicked = some .freewalkLeaf :=
    Lts.exists_of_run forked_start exitAttached (by decide +kernel)
  exact always m reach panicked

/-- The call respects the conditions, and the process whose page table it takes down has
nothing attached. -/
def TearsDown (m : Machine) (l : Event) : Prop :=
  let c := m.state.entered l.1.1 l.1.2
  m.state.FreesPrivate l.1.1 c ∧ m.state.GrowsClear l.1.1 c ∧ m.state.HasRecord l.1.1 c ∧
    m.state.TearsDetached l.1.1 c
  deriving Decidable

theorem inv_of_tearsDown (reach : system.ReachableWhen TearsDown m) :
    Inv False True m.state ∧ m.panicked ≠ some .freewalkLeaf := by
  refine reach.invariant (P := fun m => Inv False True m.state ∧
    m.panicked ≠ some .freewalkLeaf) ?_ ?_
  · intro m start
    refine ⟨start.inv.weaken False.elim fun holds => holds, ?_⟩
    rw [start.running]
    exact nofun
  · intro m ⟨⟨p, c⟩, value⟩ m' ⟨inv, _⟩ ⟨frees, clear, room, detached⟩ step
    refine ⟨inv.step step False.elim frees clear fun _ => room, fun panicked => ?_⟩
    obtain ⟨_, ⟨running, _⟩ | ⟨_, _, e, isE, reason⟩⟩ := exec_effect step inv.blank inv.sized
    · rw [running] at panicked
      cases panicked
    · rw [isE] at panicked
      cases panicked
      exact inv.tears reason detached

/-- **Taking down an address space never panics** with "freewalk: leaf", in every run in which
no call frees a page that another process maps or extends a heap over a mapped page,
every attachment has a record, and no page table is taken down with something attached. -/
theorem no_freewalk_leaf_of_tearsDown {m : Machine} (reach : system.ReachableWhen TearsDown m) :
    m.panicked ≠ some .freewalkLeaf :=
  (inv_of_tearsDown reach).2

/-- The child attaches, grows its heap below the segment, detaches and exits. -/
theorem no_freewalk_leaf_detached : ∃ m, system.ReachableWhen TearsDown m ∧
    (m.state.proc 1).state = .unused ∧ m.panicked ≠ some .freewalkLeaf := by
  obtain ⟨m, reach, state⟩ : ∃ m, system.ReachableWhen TearsDown m ∧
      (m.state.proc 1).state = .unused :=
    Lts.exists_of_run forked_start [(1, .shmattach 0), (1, .sbrk 4096 false), (1, .fault 12288),
      (1, .shmdetach 16384), (1, .exit 0), (0, .wait 0)] (by decide +kernel)
  exact ⟨m, reach, state, no_freewalk_leaf_of_tearsDown reach⟩

end Xv6.Vm
