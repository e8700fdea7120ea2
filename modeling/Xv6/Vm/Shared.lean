import Xv6.Vm.Freed

/-!
# The pages of shared segments

A segment is attached above the heap, and only `attachtable` knows of it. `sbrk` may
extend the heap over it without looking, and then frees the segment's pages with the
heap. As long as no heap is extended over a mapped page, the pages of the segments are
never free and never in a heap.
-/

namespace Xv6.Vm

open Outcome Ownership

/-- The pages of the segments are neither free nor in the heap of a process. -/
def SegmentsKept (m : Machine) : Prop :=
  ∀ i seg x, m.state.segtable i = some seg → x ∈ seg.pages →
    x ∉ m.state.kmem.free ∧ ∀ q v, (m.state.proc q).heap v ≠ some x

/-- The call is one of `sysshm.c`, `sbrk`, `fork` or `exit`. -/
def Call.isShmRun : Call → Bool
  | .shmget _ _ | .shmattach _ | .shmdetach _ | .sbrk _ _ | .fork | .exit _ => true
  | _ => false

/-- A process attaches a segment, extends its heap lazily over it and gives the heap back. -/
def shrinkOver : List (Slot × Call) :=
  [(1, .shmattach 0), (1, .sbrk 12288 false), (1, .sbrk (-12288) true)]

theorem segment_freed :
    ¬ ∀ m, system.ReachableWhen (fun _ l => l.1.2.isShmRun = true) m → SegmentsKept m := by
  intro always
  obtain ⟨m, reach, stored, free⟩ : ∃ m,
      system.ReachableWhen (fun _ l => l.1.2.isShmRun = true) m ∧
      (m.state.segtable 0).map (·.pages) = some [0x80101] ∧ 0x80101 ∈ m.state.kmem.free :=
    Lts.exists_of_run forked_start shrinkOver (by decide +kernel)
  obtain ⟨seg, present, pages⟩ := Option.map_eq_some_iff.mp stored
  exact (always m reach 0 seg 0x80101 present (by rw [pages]; simp)).1 free

/-! ## Runs in which heaps grow over nothing -/

section Invariant

variable {R : Prop} {s : State}

theorem Inv.freesPrivate (inv : Inv True R s) (live : (s.proc p).state.live = true) (c : Call) :
    s.FreesPrivate p c := by
  have reaps : s.ReapsPrivate p := by
    intro child found process
    have zombie := List.find?_some found
    simp only [Bool.and_eq_true, decide_eq_true_eq] at zombie
    refine inv.private trivial ⟨?_, ?_⟩ 0
    · rw [zombie.2]
      decide
    · rw [process]
      exact fun thread => Bool.noConfusion thread.2
  cases c with
  | sbrk n eager => exact fun _ => inv.private trivial (tracked_of_live live) _
  | exec file argv => exact inv.private trivial (tracked_of_live live) 0
  | wait addr | waitx addr => exact reaps
  | _ => trivial

theorem Inv.heap_outside (inv : Inv True R s) (held : (s.proc q).heap v = some x) :
    x ∉ s.owned := by
  refine inv.outside ⟨⟨fun unused => ?_, fun thread => ?_⟩, v, held⟩
  · have empty := (inv.unused unused).1
    obtain ⟨_, pte, mapped, _⟩ := heap_eq_some.mp held
    obtain ⟨pt, table⟩ := Proc.table_of_leaf mapped
    rw [empty] at table
    cases table
  · rw [inv.threads trivial q] at thread
    cases thread.2

end Invariant

/-- The call makes no thread, and extends no heap over a mapped page. -/
def GrowsOverNothing (m : Machine) (l : Event) : Prop :=
  l.1.2.isClone = false ∧ m.state.GrowsClear l.1.1 (m.state.entered l.1.1 l.1.2)
  deriving Decidable

theorem inv_of_growsOverNothing (reach : system.ReachableWhen GrowsOverNothing m) :
    Inv True False m.state := by
  refine reach.invariant (P := fun m => Inv True False m.state) ?_ ?_
  · intro m start
    exact start.inv.weaken (fun holds => holds) False.elim
  · intro m ⟨⟨p, c⟩, value⟩ m' inv ⟨alone, clear⟩ step
    have live := (exec_cases step).2.1
    have entered := m.state.entered_of (P := (Call.isClone · = false)) p rfl alone
    exact inv.step step (fun _ => entered) (inv.freesPrivate live _) clear False.elim

/-- **Shared pages are never freed or handed out again**, in every run without threads in which
no lazy `sbrk` extends a heap over a mapped page. -/
theorem segmentsKept_of_growsOverNothing {m : Machine}
    (reach : system.ReachableWhen GrowsOverNothing m) : SegmentsKept m := by
  intro i seg x present mem
  have inv := inv_of_growsOverNothing reach
  have shared : x ∈ m.state.segPages := State.mem_segPages present mem
  refine ⟨fun free => inv.segment_outside shared (Multiset.mem_add.mpr (.inl free)), ?_⟩
  intro q v held
  exact inv.heap_outside held (Multiset.mem_add.mpr (.inr shared))

/-- Two processes attach the segment; one grows and shrinks its heap below it and exits. -/
theorem segmentsKept_shrunk : ∃ m, system.ReachableWhen GrowsOverNothing m ∧
    (m.state.proc 1).state = .zombie ∧ SegmentsKept m := by
  obtain ⟨m, reach, state⟩ : ∃ m, system.ReachableWhen GrowsOverNothing m ∧
      (m.state.proc 1).state = .zombie :=
    Lts.exists_of_run forked_start [(0, .shmattach 0), (1, .shmattach 0), (1, .sbrk 4096 false),
      (1, .fault 12288), (1, .sbrk (-8192) true), (1, .exit 0)] (by decide +kernel)
  exact ⟨m, reach, state, segmentsKept_of_growsOverNothing reach⟩

end Xv6.Vm
