import Xv6.Vm.Leak

/-!
# The rows of `attachtable`

`sysshm.c` keeps the attachments of a process in the row of its pid. A pid is used once:
`allocpid` counts up, also for a process that cannot be made in the end. So there are rows for
the first `NPROC` pids only, and a process that comes later has none, however few processes
there are. Until then every process has a row of its own, which is empty until it attaches
something.
-/

namespace Xv6.Vm

open Outcome

/-- The pids that have attached a segment, one for each attachment. -/
def noteAttach (pids : List Nat) (m : Machine) (l : Event) : List Nat :=
  match m.state.entered l.1.1 l.1.2, l.2 with
  | .shmattach _, some _ => (m.state.proc l.1.1).pid :: pids
  | _, _ => pids

/-- The system from boot on, with the pids that have attached something. -/
def attaching : Lts (Machine × List Nat) Event :=
  booted.observed [] noteAttach

/-- Every process has a row of its own, which is empty if it has not attached anything. -/
structure RowsValid (x : Machine × List Nat) : Prop where
  valid : ∀ q, (x.1.state.proc q).state ≠ .unused → (pidslot (x.1.state.proc q).pid).isSome
  distinct : ∀ q r, (x.1.state.proc q).state ≠ .unused → (x.1.state.proc r).state ≠ .unused →
    pidslot (x.1.state.proc q).pid = pidslot (x.1.state.proc r).pid → q = r
  empty : ∀ q row, (x.1.state.proc q).state ≠ .unused →
    pidslot (x.1.state.proc q).pid = some row → (x.1.state.proc q).pid ∉ x.2 →
    ∀ i, x.1.state.attachtable row i = none

/-! ## A process without a row -/

/-- A memory for two processes. -/
def tinyBoot : State := boot ((List.range 8).map (0x80100 + ·)) 0x80100 0x80007

def tiny : Machine where
  state := match userinit tinyBoot with
    | .ok s => s
    | .error _ => tinyBoot

theorem tiny_booted : Booted tiny := by
  have started : (userinit tinyBoot).toOption.isSome = true := by decide +kernel
  have made : userinit tinyBoot = .ok tiny.state := by
    unfold tiny
    cases made : userinit tinyBoot with
    | ok s => rfl
    | error e =>
      rw [made] at started
      cases started
  exact ⟨rfl, _, _, _, made⟩

/-- A process forks again and again. The first child stays, so that there is no memory for the
others, but each takes a pid; then the first child is reaped, and there is memory for a child
with pid 65. -/
def forkOn : List (Slot × Call) :=
  (0, .fork) :: List.replicate 62 (0, .fork) ++ [(1, .exit 0), (0, .wait 0), (0, .fork)]

theorem late_pid_has_no_row : ¬ ∀ x, attaching.Reachable x → RowsValid x := by
  intro always
  obtain ⟨x, reach, inUse, none⟩ : ∃ x, attaching.Reachable x ∧
      (x.1.state.proc 1).state ≠ .unused ∧ pidslot (x.1.state.proc 1).pid = none :=
    Lts.exists_of_replay (fun _ _ => True) tiny_booted forkOn (by decide +kernel)
  have row := (always x reach).valid 1 inUse
  rw [none] at row
  cases row

/-! ## Pids -/

/-- The process has the pid it had, or is not in use. -/
def State.KeepsPid (s s' : State) (q : Slot) : Prop :=
  (s'.proc q).state = .unused ∨
    (s.proc q).state ≠ .unused ∧ (s'.proc q).pid = (s.proc q).pid

/-- What a call does to the pids: at most one process is new, which has the next one. -/
structure State.Numbers (s s' : State) : Prop where
  nextpid : s.nextpid ≤ s'.nextpid
  slots : ∃ np, (∀ q, q ≠ np → s.KeepsPid s' q) ∧
    (s.KeepsPid s' np ∨ (s'.proc np).pid = s.nextpid ∧ s.nextpid < s'.nextpid)

/-- The pids of the processes in use are positive, have been given out, and differ. -/
structure State.Numbered (s : State) : Prop where
  positive : 0 < s.nextpid
  pid_pos : ∀ {q}, (s.proc q).state ≠ .unused → 0 < (s.proc q).pid
  pid_lt : ∀ {q}, (s.proc q).state ≠ .unused → (s.proc q).pid < s.nextpid
  pid_inj : ∀ {q r}, (s.proc q).state ≠ .unused → (s.proc r).state ≠ .unused →
    (s.proc q).pid = (s.proc r).pid → q = r

section Pids

variable {s s' : State} {p : Slot}

theorem Proc.SameMemory.keepsPid (same : (s.proc q).SameMemory (s'.proc q)) : s.KeepsPid s' q := by
  by_cases unused : (s'.proc q).state = .unused
  · exact .inl unused
  · exact .inr ⟨fun was => unused (same.unused.mpr was), same.pid⟩

theorem State.Becomes.keepsPid (step : s.Becomes s' np q) : s.KeepsPid s' q ∨
    q = np ∧ (s'.proc q).pid = s.nextpid ∧ s.nextpid < s'.nextpid := by
  cases step with
  | same same => exact .inl same.keepsPid
  | image pt sz inUse _ same => exact .inl (.inr ⟨inUse, same.pid⟩)
  | cleared unused => exact .inl (.inl unused)
  | born here nextpid pid => exact .inr ⟨here, pid, nextpid ▸ Nat.lt_succ_self _⟩

theorem State.Numbered.step (numbered : s.Numbered) (numbers : s.Numbers s') : s'.Numbered := by
  obtain ⟨np, kept, new⟩ := numbers.slots
  have old {q : Slot} (keeps : s.KeepsPid s' q) (inUse : (s'.proc q).state ≠ .unused) :
      (s.proc q).state ≠ .unused ∧ (s'.proc q).pid = (s.proc q).pid :=
    keeps.resolve_left inUse
  have fresh {q : Slot} (keeps : s.KeepsPid s' q) (inUse : (s'.proc q).state ≠ .unused) :
      (s'.proc q).pid < s.nextpid := by
    obtain ⟨was, same⟩ := old keeps inUse
    rw [same]
    exact numbered.pid_lt was
  have each {q : Slot} (inUse : (s'.proc q).state ≠ .unused) :
      s.KeepsPid s' q ∨ q = np ∧ (s'.proc q).pid = s.nextpid ∧ s.nextpid < s'.nextpid := by
    by_cases here : q = np
    · subst here
      exact new.imp_right fun born => ⟨rfl, born⟩
    · exact .inl (kept q here)
  refine ⟨Nat.lt_of_lt_of_le numbered.positive numbers.nextpid, ?_, ?_, ?_⟩
  · intro q inUse
    rcases each inUse with keeps | ⟨_, pid, _⟩
    · obtain ⟨was, same⟩ := old keeps inUse
      rw [same]
      exact numbered.pid_pos was
    · rw [pid]
      exact numbered.positive
  · intro q inUse
    rcases each inUse with keeps | ⟨_, pid, grown⟩
    · exact Nat.lt_of_lt_of_le (fresh keeps inUse) numbers.nextpid
    · rw [pid]
      exact grown
  · intro q r inUse inUse' same
    rcases each inUse with keeps | ⟨here, pid, _⟩
    · rcases each inUse' with keeps' | ⟨_, pid', _⟩
      · obtain ⟨was, pid⟩ := old keeps inUse
        obtain ⟨was', pid'⟩ := old keeps' inUse'
        exact numbered.pid_inj was was' (pid.symm.trans (same.trans pid'))
      · have := fresh keeps inUse
        omega
    · rcases each inUse' with keeps' | ⟨here', _, _⟩
      · have := fresh keeps' inUse'
        omega
      · exact here.trans here'.symm

/-- Only the rows for which `new` holds have records that were not there. -/
def State.Records (s s' : State) (new : Fin NPROC → Prop) : Prop :=
  ∀ row i, s'.attachtable row i ≠ none → s.attachtable row i ≠ none ∨ new row

theorem State.Records.of_eq (same : s'.attachtable = s.attachtable) : s.Records s' new := by
  intro row i present
  rw [same] at present
  exact .inl present

/-- The call makes a process. -/
def Call.spawns : Call → Bool
  | .fork | .clone _ _ _ => true
  | _ => false

/-- What a call does to pids and records. -/
structure State.RowStep (s s' : State) (p : Slot) (c : Call) (value : Option Nat) : Prop where
  numbers : s.Numbers s'
  nextpid : s'.nextpid ≤ s.nextpid + if c.spawns then 1 else 0
  records : s.Records s' fun row =>
    (∃ shmid, c = .shmattach shmid) ∧ value.isSome ∧ pidslot (s.proc p).pid = some row

theorem Effect.nextpid (effect : Effect s p c s' value) :
    s.nextpid ≤ s'.nextpid ∧ s'.nextpid ≤ s.nextpid + if c.spawns then 1 else 0 := by
  have still {s' : State} (same : s'.nextpid = s.nextpid) (n : Nat) :
      s.nextpid ≤ s'.nextpid ∧ s'.nextpid ≤ s.nextpid + n := by omega
  cases c with
  | fork | clone =>
    cases effect with
    | full => exact still rfl 1
    | undone | made => exact ⟨Nat.le_succ _, le_rfl⟩
  | exit status =>
    rw [effect.1]
    exact still rfl 0
  | shmattach shmid =>
    cases effect with
    | refused | undone => exact still rfl 0
    | attached =>
      refine still ?_ 0
      unfold State.record
      split
      · rfl
      · rfl
  | _ => cases effect <;> exact still rfl 0

theorem Effect.records (effect : Effect s p c s' value) :
    s.Records s' fun row =>
      (∃ shmid, c = .shmattach shmid) ∧ value.isSome ∧ pidslot (s.proc p).pid = some row := by
  by_cases other : c.isShm = false
  · exact .of_eq (effect.sameShm other).2
  cases c with
  | shmget key size =>
    cases effect with
    | same | failed | made => exact .of_eq rfl
  | shmattach shmid =>
    cases effect with
    | refused | undone => exact .of_eq rfl
    | attached place =>
      intro row i present
      obtain ⟨entry, there⟩ := Option.ne_none_iff_exists'.mp present
      rcases State.of_record there with old | ⟨here, _⟩
      · exact .inl fun none => nomatch old.symm.trans none
      · exact .inr ⟨⟨shmid, rfl⟩, rfl, here ▸ place.slot⟩
  | shmdetach addr =>
    cases effect with
    | absent => exact .of_eq rfl
    | detached =>
      intro row i present
      obtain ⟨entry, there⟩ := Option.ne_none_iff_exists'.mp present
      rcases State.of_setRecord there with old | ⟨_, _, none⟩
      · exact .inl fun none => nomatch old.symm.trans none
      · cases none
  | _ => exact absurd rfl other

theorem Effect.rows (effect : Effect s p c s' value) (sized : s.Sized)
    (live : (s.proc p).state.live = true) : s.RowStep s' p c value := by
  obtain ⟨np, becomes⟩ := effect.becomes sized live
  refine ⟨⟨effect.nextpid.1, np, fun q other => ?_, ?_⟩, effect.nextpid.2, effect.records⟩
  · exact (becomes q).keepsPid.resolve_right fun new => other new.1
  · exact (becomes np).keepsPid.imp_right fun new => new.2

end Pids

/-- A process is made only while there are pids with a row. -/
def SparesPids (m : Machine) (l : Event) : Prop :=
  (m.state.entered l.1.1 l.1.2).spawns = true → m.state.nextpid ≤ NPROC
  deriving Decidable

/-- The pids are in order, and only the rows of pids that have attached something have records. -/
structure Rows (x : Machine × List Nat) : Prop where
  numbered : x.1.state.Numbered
  few : x.1.state.nextpid ≤ NPROC + 1
  records : ∀ row i, x.1.state.attachtable row i ≠ none → row.val + 1 ∈ x.2

section Runs

variable {s : State} {x : Machine × List Nat}

theorem pidslot_isSome (positive : 0 < pid) (small : pid ≤ NPROC) : (pidslot pid).isSome := by
  unfold pidslot
  rw [dif_pos ⟨positive, small⟩]
  rfl

theorem userinit_rows (free : List Nat) (first trampoline : Nat) :
    Ends (fun _ => True)
      (fun s => s.Numbered ∧ s.nextpid ≤ NPROC + 1 ∧ ∀ row i, s.attachtable row i = none)
      (userinit (boot free first trampoline)) := by
  have numbered : (boot free first trampoline).Numbered :=
    ⟨Nat.one_pos, fun inUse => absurd rfl inUse, fun inUse => absurd rfl inUse,
      fun inUse => absurd rfl inUse⟩
  apply (userinit_ends (boot_blank free first trampoline)).imp
  rintro s' ⟨np, page, pt, k, _, _, _, rfl⟩
  refine ⟨numbered.step ⟨Nat.le_succ _, np, fun q other => .inl ?_, .inr ⟨?_, Nat.lt_succ_self _⟩⟩,
    show 1 + 1 ≤ NPROC + 1 by decide, fun _ _ => rfl⟩
  · rw [State.enter, State.set_proc_other _ _ _ other]
    rfl
  · rw [State.enter, State.set_proc_self]
    rfl

theorem noteAttach_mono (pids : List Nat) (m : Machine) (l : Event)
    (noted : pid ∈ pids) : pid ∈ noteAttach pids m l := by
  unfold noteAttach
  split
  · exact List.mem_cons_of_mem _ noted
  · exact noted

theorem Rows.step (rows : Rows x) (few : SparesPids x.1 l)
    (tidy : x.1.state.Blank ∧ x.1.state.Sized) (step : exec x.1 l.1 = some (m', l.2)) :
    Rows (m', noteAttach x.2 x.1 l) ∧ m'.state.Blank ∧ m'.state.Sized := by
  obtain ⟨⟨p, c⟩, value⟩ := l
  obtain ⟨blank, sized⟩ := tidy
  obtain ⟨live, ⟨_, effect⟩ | ⟨same, _⟩⟩ := exec_effect step blank sized
  · have stepped := effect.rows sized live
    refine ⟨?_, effect.blank blank sized live⟩
    refine ⟨rows.numbered.step stepped.numbers, ?_, fun row i present => ?_⟩
    · have bound := stepped.nextpid
      have before := rows.few
      by_cases spawns : (x.1.state.entered p c).spawns = true
      · have small : x.1.state.nextpid ≤ NPROC := few spawns
        rw [if_pos spawns] at bound
        exact Nat.le_trans bound (Nat.succ_le_succ small)
      · rw [if_neg spawns] at bound
        exact Nat.le_trans bound before
    · rcases stepped.records row i present with old | ⟨⟨shmid, is⟩, some, slot⟩
      · exact noteAttach_mono _ _ _ (rows.records row i old)
      obtain ⟨a, found⟩ := Option.isSome_iff_exists.mp some
      unfold noteAttach
      rw [is, found, pidslot_val slot]
      exact List.mem_cons_self
  · refine ⟨⟨same ▸ rows.numbered, same ▸ rows.few, fun row i present => ?_⟩, same ▸ blank,
      same ▸ sized⟩
    exact noteAttach_mono _ _ _ (rows.records row i (same ▸ present))

theorem rows_of_sparesPids (reach : attaching.ReachableWhen (fun x l => SparesPids x.1 l) x) :
    Rows x := by
  suffices all : Rows x ∧ x.1.state.Blank ∧ x.1.state.Sized from all.1
  refine reach.invariant (P := fun x => Rows x ∧ x.1.state.Blank ∧ x.1.state.Sized) ?_ ?_
  · intro ⟨m, pids⟩ ⟨⟨_, free, first, trampoline, started⟩, _⟩
    have start := (userinit_rows free first trampoline).both (userinit_tidy free first trampoline)
    rw [started] at start
    obtain ⟨⟨numbered, few, empty⟩, tidy⟩ := start.value
    exact ⟨⟨numbered, few, fun row i present => absurd (empty row i) present⟩,
      tidy.blank, tidy.sized⟩
  · intro x l ⟨m', pids⟩ ⟨rows, tidy⟩ few ⟨step, noted⟩
    cases noted
    exact rows.step few tidy step

theorem Rows.valid (rows : Rows x) : RowsValid x where
  valid q inUse := by
    have := rows.numbered.pid_lt inUse
    have := rows.few
    exact pidslot_isSome (rows.numbered.pid_pos inUse) (by omega)
  distinct q r inUse inUse' same := by
    have := rows.numbered.pid_lt inUse
    have := rows.few
    obtain ⟨row, slot⟩ := Option.isSome_iff_exists.mp
      (pidslot_isSome (rows.numbered.pid_pos inUse) (by omega))
    refine rows.numbered.pid_inj inUse inUse' ?_
    have slot' := slot
    rw [same] at slot'
    exact (pidslot_val slot).trans (pidslot_val slot').symm
  empty q row _ slot new i := by
    by_contra present
    refine new ?_
    rw [pidslot_val slot]
    exact rows.records row i present

/-- **Every process has a row of its own**, in every run that makes at most `NPROC` processes. -/
theorem rowsValid_of_sparesPids (reach : attaching.ReachableWhen (fun x l => SparesPids x.1 l) x) :
    RowsValid x :=
  (rows_of_sparesPids reach).valid

end Runs

/-- Two processes are made, one after the other. -/
theorem rowsValid_reaped : ∃ x, attaching.ReachableWhen (fun x l => SparesPids x.1 l) x ∧
    (x.1.state.proc 1).pid = 3 ∧ RowsValid x := by
  obtain ⟨x, reach, pid⟩ : ∃ x, attaching.ReachableWhen (fun x l => SparesPids x.1 l) x ∧
      (x.1.state.proc 1).pid = 3 :=
    Lts.exists_of_replay SparesPids tiny_booted [(0, .fork), (1, .exit 0), (0, .wait 0), (0, .fork)]
      (by decide +kernel)
  exact ⟨x, reach, pid, rowsValid_of_sparesPids reach⟩

end Xv6.Vm
