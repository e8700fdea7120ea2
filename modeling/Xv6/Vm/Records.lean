import Xv6.Vm.Rows

/-!
# The records of `attachtable`

`shmattach` counts a reference to the segment and stores a record of the attachment, and
`shmdetach` undoes both. The counts agree with the records as sums over the table do, of
which each call changes one term. Two things come between: `kexit` leaves the records of
the process, and a full row takes no record.
-/

namespace Xv6.Vm

open Outcome
open Function
open Finset (add_sum_erase mem_univ sum_congr sum_eq_zero)

/-- What a call of a process does to the addresses that are attached, by its result. -/
def Call.noteAddress (pid : Nat) (held : Multiset (Nat × Nat)) :
    Call → Option Nat → Multiset (Nat × Nat)
  | .shmattach _, some addr => (pid, addr) ::ₘ held
  | .shmdetach addr, some _ => held.erase (pid, addr)
  | _, _ => held

/-- The addresses that have been attached and not yet detached, with the pids. -/
def noteAddress (held : Multiset (Nat × Nat)) (m : Machine) (l : Event) :
    Multiset (Nat × Nat) :=
  (m.state.entered l.1.1 l.1.2).noteAddress (m.state.proc l.1.1).pid held l.2

/-- Where a run starts: nothing is attached, and nothing counted as attached. -/
structure Unattached (m : Machine) : Prop extends Start m where
  uncounted : ∀ id seg, m.state.segtable id = some seg → seg.refcnt = 0

def recording : Lts (Machine × Multiset (Nat × Nat)) Event :=
  (Lts.ofExec Unattached exec).observed 0 noteAddress

/-- The calls that attach and detach, change the heap, and exit. -/
def Call.isRecordRun : Call → Bool
  | .shmget _ _ | .shmattach _ | .shmdetach _ | .sbrk _ _ | .exit _ => true
  | _ => false

/-- The row is that of a live process. -/
def State.LiveRow (s : State) (row : Fin NPROC) : Prop :=
  ∃ q, (s.proc q).state.live = true ∧ pidslot (s.proc q).pid = some row
  deriving Decidable

/-- The records of live processes for a segment. -/
def State.records (s : State) (id : Fin NSHM) : Finset (Fin NPROC × Fin NSHM) :=
  Finset.univ.filter fun x => (s.attachtable x.1 x.2).any (·.shmid = id) ∧ s.LiveRow x.1

/-- The references are counted, and what has been attached is recorded and can be detached. -/
structure NoneLost (x : Machine × Multiset (Nat × Nat)) : Prop where
  counted : ∀ id seg, x.1.state.segtable id = some seg → seg.refcnt = (x.1.state.records id).card
  recorded : ∀ pid addr, (pid, addr) ∈ x.2 → ∃ p row i entry,
    (x.1.state.proc p).state.live = true ∧ (x.1.state.proc p).pid = pid ∧
      pidslot pid = some row ∧ x.1.state.attachtable row i = some entry ∧ entry.va = addr
  detaches : ∀ p addr, (x.1.state.proc p).state.live = true →
    ((x.1.state.proc p).pid, addr) ∈ x.2 →
    ∃ s', call x.1.state p (.shmdetach addr) = .ok (some (s', some 0))

/-- A process attaches a segment and exits. -/
def attachThenExit : List (Slot × Call) := [(1, .shmattach 0), (1, .exit 0)]

theorem forked_unattached : Unattached forked := by
  refine ⟨forked_start, fun id seg present => ?_⟩
  have shown : ∀ id, (forked.state.segtable id).all
      (fun seg => decide (seg.refcnt = 0)) = true := by
    decide +kernel
  have zero := shown id
  rw [present] at zero
  exact of_decide_eq_true zero

theorem exit_leaves_record :
    ¬ ∀ x, recording.ReachableWhen (fun _ l => l.1.2.isRecordRun = true) x → NoneLost x := by
  intro always
  obtain ⟨x, reach, refs, none⟩ : ∃ x,
      recording.ReachableWhen (fun _ l => l.1.2.isRecordRun = true) x ∧
      (x.1.state.segtable 0).map (·.refcnt) = some 1 ∧ (x.1.state.records 0).card = 0 :=
    Lts.exists_of_replay (fun _ l => l.1.2.isRecordRun = true) forked_unattached attachThenExit
      (by decide +kernel)
  obtain ⟨seg, present, one⟩ := Option.map_eq_some_iff.mp refs
  have counted := (always x reach).counted 0 seg present
  rw [none, one] at counted
  cases counted

/-! ## Sums over the table -/

section Sums

variable {M : Type} [AddCommMonoid M]

/-- A sum over all records. -/
def State.sumRecords (s : State) (f : Fin NPROC → Shmattach → M) : M :=
  ∑ row, ∑ i, (s.attachtable row i).elim 0 (f row)

theorem State.sumRecords_setRecord (s : State) (f : Fin NPROC → Shmattach → M) (row : Fin NPROC)
    (i : Fin NSHM) (entry : Option Shmattach) :
    (s.setRecord row i entry).sumRecords f + (s.attachtable row i).elim 0 (f row) =
      s.sumRecords f + entry.elim 0 (f row) := by
  have others : ∑ row' ∈ Finset.univ.erase row, ∑ i',
      ((s.setRecord row i entry).attachtable row' i').elim 0 (f row') =
      ∑ row' ∈ Finset.univ.erase row, ∑ i', (s.attachtable row' i').elim 0 (f row') := by
    refine sum_congr rfl fun row' mem => sum_congr rfl fun i' _ => ?_
    rw [s.setRecord_other entry fun here => Finset.ne_of_mem_erase mem here.1]
  have rest : ∑ i' ∈ Finset.univ.erase i,
      ((s.setRecord row i entry).attachtable row i').elim 0 (f row) =
      ∑ i' ∈ Finset.univ.erase i, (s.attachtable row i').elim 0 (f row) := by
    refine sum_congr rfl fun i' mem => ?_
    rw [s.setRecord_other entry fun here => Finset.ne_of_mem_erase mem here.2]
  unfold State.sumRecords
  rw [← add_sum_erase _ _ (mem_univ row), others,
    ← add_sum_erase _ _ (mem_univ i), rest, State.setRecord_self,
    ← add_sum_erase _ (fun row => ∑ i, (s.attachtable row i).elim 0 (f row))
      (mem_univ row),
    ← add_sum_erase _ (fun i => (s.attachtable row i).elim 0 (f row)) (mem_univ i)]
  abel

theorem State.sumRecords_congr {s s' : State} (same : s'.attachtable = s.attachtable)
    (f : Fin NPROC → Shmattach → M) : s'.sumRecords f = s.sumRecords f := by
  unfold State.sumRecords
  rw [same]

end Sums

/-! ## What the tables agree on -/

/-- The records for a segment, counted. -/
def State.refs (s : State) (id : Fin NSHM) : Int :=
  s.sumRecords fun _ entry => if entry.shmid = id then 1 else 0

/-- The addresses of all records, with the pids of their rows. -/
def State.addresses (s : State) : Multiset (Nat × Nat) :=
  s.sumRecords fun row entry => {(row.val + 1, entry.va)}

/-- The record is for a segment, and for pages that there are. -/
structure State.GoodRecord (s : State) (entry : Shmattach) : Prop where
  used : (s.segtable entry.shmid).isSome
  range : entry.va / PGSIZE + entry.npages.toNat ≤ MAXVPN

/-- Segments and records agree, and the records are of the addresses that are held. -/
structure State.Agrees (s : State) (held : Multiset (Nat × Nat)) : Prop where
  refs : ∀ id seg, s.segtable id = some seg → seg.refcnt = s.refs id
  held : held = s.addresses
  good : ∀ row i entry, s.attachtable row i = some entry → s.GoodRecord entry
  short : ∀ id seg, s.segtable id = some seg → seg.npages ≤ SHM_MAXPAGES

section Agrees

variable {s s' : State} {held : Multiset (Nat × Nat)}

theorem State.Agrees.same (agrees : s.Agrees held) (same : s.SameShm s') : s'.Agrees held := by
  obtain ⟨segs, records⟩ := same
  refine ⟨fun id seg present => ?_, ?_, fun row i entry present => ?_, fun id seg present => ?_⟩
  · rw [segs] at present
    rw [State.refs, State.sumRecords_congr records]
    exact agrees.refs id seg present
  · rw [State.addresses, State.sumRecords_congr records]
    exact agrees.held
  · rw [records] at present
    obtain ⟨used, range⟩ := agrees.good row i entry present
    exact ⟨segs ▸ used, range⟩
  · rw [segs] at present
    exact agrees.short id seg present

theorem State.Agrees.refs_unused (agrees : s.Agrees held) {id : Fin NSHM}
    (unused : s.segtable id = none) : s.refs id = 0 := by
  unfold State.refs State.sumRecords
  refine sum_eq_zero fun row _ => sum_eq_zero fun i _ => ?_
  cases present : s.attachtable row i with
  | none => rfl
  | some entry =>
    refine if_neg fun same => ?_
    have used := (agrees.good row i entry present).used
    rw [same, unused] at used
    cases used

theorem State.Agrees.add (agrees : s.Agrees held) {id : Fin NSHM} {seg : Shmseg}
    (unused : s.segtable id = none) (zero : seg.refcnt = 0) (short : seg.npages ≤ SHM_MAXPAGES)
    (segs : s'.segtable = update s.segtable id (some seg))
    (records : s'.attachtable = s.attachtable) : s'.Agrees held := by
  have sum : s'.refs = s.refs := funext fun id => State.sumRecords_congr records _
  refine ⟨fun id' seg' present => ?_, ?_, fun row i entry present => ?_, fun id' seg' present => ?_⟩
  · rw [segs] at present
    by_cases here : id' = id
    · rw [here, update_self] at present
      cases present
      rw [zero, sum, here, agrees.refs_unused unused]
    · rw [update_of_ne here] at present
      rw [sum]
      exact agrees.refs id' seg' present
  · rw [State.addresses, State.sumRecords_congr records]
    exact agrees.held
  · rw [records] at present
    obtain ⟨used, range⟩ := agrees.good row i entry present
    refine ⟨?_, range⟩
    rw [segs]
    by_cases here : entry.shmid = id
    · rw [here, update_self]
      rfl
    · rw [update_of_ne here]
      exact used
  · rw [segs] at present
    by_cases here : id' = id
    · rw [here, update_self] at present
      cases present
      exact short
    · rw [update_of_ne here] at present
      exact agrees.short id' seg' present

theorem State.addRef_isSome (s : State) (id id' : Fin NSHM) (d : Int) :
    ((s.addRef id d).segtable id').isSome = (s.segtable id').isSome := by
  unfold State.addRef
  dsimp only
  by_cases here : id' = id
  · rw [here, update_self, Option.isSome_map]
  · rw [update_of_ne here]

theorem State.Agrees.attach (agrees : s.Agrees held) (free : s.attachtable row i = none)
    (good : s.GoodRecord entry) :
    ((s.addRef entry.shmid 1).setRecord row i (some entry)).Agrees
      ((row.val + 1, entry.va) ::ₘ held) := by
  have sum {M : Type} [AddCommMonoid M] (f : Fin NPROC → Shmattach → M) :
      ((s.addRef entry.shmid 1).setRecord row i (some entry)).sumRecords f =
        s.sumRecords f + f row entry := by
    have changed := State.sumRecords_setRecord (s.addRef entry.shmid 1) f row i (some entry)
    have was : (s.addRef entry.shmid 1).attachtable row i = none := free
    rw [was, Option.elim_none, add_zero] at changed
    exact changed
  refine ⟨fun id seg present => ?_, ?_, fun row' i' entry' present => ?_, fun id seg present => ?_⟩
  · obtain ⟨old, was, _, _, count⟩ := State.addRef_segtable present
    rw [count, agrees.refs id old was]
    exact (sum _).symm
  · rw [State.addresses, sum, agrees.held, ← Multiset.singleton_add, add_comm]
    rfl
  · have isGood : s.GoodRecord entry' := by
      rcases State.of_setRecord present with old | ⟨_, _, new⟩
      · exact agrees.good row' i' entry' old
      · cases new
        exact good
    refine ⟨?_, isGood.range⟩
    exact (State.addRef_isSome s _ _ _).trans isGood.used
  · obtain ⟨old, was, pages, _, _⟩ := State.addRef_segtable present
    rw [pages]
    exact agrees.short id old was

theorem State.Agrees.detach (agrees : s.Agrees held) (present : s.attachtable row i = some entry) :
    ((s.setRecord row i none).addRef entry.shmid (-1)).Agrees
      (held.erase (row.val + 1, entry.va)) := by
  have sum {M : Type} [AddCommMonoid M] (f : Fin NPROC → Shmattach → M) :
      ((s.setRecord row i none).addRef entry.shmid (-1)).sumRecords f + f row entry =
        s.sumRecords f := by
    have changed := State.sumRecords_setRecord s f row i none
    rw [present, Option.elim_none, add_zero] at changed
    exact changed
  refine ⟨fun id seg counted => ?_, ?_, fun row' i' entry' left => ?_, fun id seg counted => ?_⟩
  · obtain ⟨old, was, _, _, count⟩ := State.addRef_segtable counted
    have before := agrees.refs id old was
    rw [State.refs, ← sum] at before
    rw [count, before, State.refs]
    split
    · omega
    · omega
  · have all := agrees.held
    rw [State.addresses, ← sum, add_comm, Multiset.singleton_add] at all
    rw [all, Multiset.erase_cons_head]
    rfl
  · rcases State.of_setRecord left with old | ⟨_, _, new⟩
    · obtain ⟨used, range⟩ := agrees.good row' i' entry' old
      exact ⟨(State.addRef_isSome _ _ _ _).trans used, range⟩
    · cases new
  · obtain ⟨old, was, pages, _, _⟩ := State.addRef_segtable counted
    rw [pages]
    exact agrees.short id old was

end Agrees

/-- The processes are the same, up to their memory. -/
structure State.Steady (s s' : State) : Prop where
  pid : ∀ q, (s'.proc q).pid = (s.proc q).pid
  state : ∀ q, (s'.proc q).state = (s.proc q).state
  table : ∀ q, (s'.proc q).pagetable.isSome = (s.proc q).pagetable.isSome

section Calls

variable {s s' : State} {p : Slot}

theorem State.setImage_steady {image : Image} (memory : s.image p = some image) (image' : Image) :
    s.Steady (s.setImage p image') := by
  suffices fields : ∀ q, ((s.setImage p image').proc q).pid = (s.proc q).pid ∧
      ((s.setImage p image').proc q).state = (s.proc q).state ∧
      ((s.setImage p image').proc q).pagetable.isSome = (s.proc q).pagetable.isSome from
    ⟨fun q => (fields q).1, fun q => (fields q).2.1, fun q => (fields q).2.2⟩
  intro q
  by_cases here : q = p
  · rw [here, State.setImage_self, (State.image_some memory).1]
    exact ⟨rfl, rfl, rfl⟩
  · rw [State.setImage_other _ here]
    exact ⟨rfl, rfl, rfl⟩

theorem attach_range {npages : Int} (fits : npg sz ≤ trapframeVpn)
    (short : npages ≤ SHM_MAXPAGES)
    (below : ¬ ((attachVpn sz * PGSIZE : Nat) + npages * PGSIZE) % 2 ^ 64 >
      (trapframeVpn * PGSIZE : Nat)) :
    attachVpn sz * PGSIZE / PGSIZE + npages.toNat ≤ MAXVPN := by
  unfold attachVpn trapframeVpn MAXVPN PGSIZE SHM_MAXPAGES at *
  omega

theorem shmdetach_succeeds (slot : pidslot (s.proc p).pid = some row)
    (table : (s.proc p).pagetable.isSome)
    (recorded : ∃ entry, s.attachtable row i = some entry ∧ entry.va = addr)
    (good : ∀ j entry, s.attachtable row j = some entry → s.GoodRecord entry) :
    ∃ s', shmdetach s p addr = .ok (s', some 0) := by
  obtain ⟨entry, present, va⟩ := recorded
  have found : (s.findRecord row addr).isSome := by
    refine List.find?_isSome.mpr ⟨i, List.mem_finRange i, ?_⟩
    rw [present]
    exact decide_eq_true va
  obtain ⟨j, found⟩ := Option.isSome_iff_exists.mp found
  obtain ⟨entry', present', va'⟩ := State.findRecord_some found
  obtain ⟨pt, table⟩ := Option.isSome_iff_exists.mp table
  have memory : s.image p = some { pagetable := pt, sz := (s.proc p).sz, kmem := s.kmem } := by
    unfold State.image
    rw [table]
    rfl
  have range := (good j entry' present').range
  rw [va'] at range
  have unmaps := uvmunmap_ends s.kmem entry'.npages.toNat pt (addr / PGSIZE)
  unfold shmdetach
  rw [slot]
  dsimp only
  rw [found]
  dsimp only
  rw [present', memory]
  dsimp only
  cases unmapped : uvmunmap pt s.kmem (addr / PGSIZE) entry'.npages.toNat false with
  | error e =>
    rw [unmapped] at unmaps
    have outside := unmaps.failure.2
    omega
  | ok result => exact ⟨_, rfl⟩

end Calls

/-- What a call needs for the records to be kept: a process exits only when it has detached
everything, and attaches only when there is a free record in its row. -/
def State.KeepsRecords (s : State) (p : Slot) : Call → Prop
  | .exit _ => s.Detached (s.proc p).pid
  | .shmattach shmid => s.HasRecord p (.shmattach shmid)
  | .shmget _ _ | .shmdetach _ | .sbrk _ _ => True
  | _ => False

instance (s : State) (p : Slot) : ∀ c, Decidable (s.KeepsRecords p c)
  | .exit _ => inferInstanceAs (Decidable (s.Detached (s.proc p).pid))
  | .shmattach shmid => inferInstanceAs (Decidable (s.HasRecord p (.shmattach shmid)))
  | .shmget _ _ | .shmdetach _ | .sbrk _ _ => .isTrue trivial
  | .exec _ _ | .wait _ | .waitx _ | .fork | .clone _ _ _ | .join | .kill _ | .fault _ =>
      .isFalse id

def KeepsRecords (m : Machine) (l : Event) : Prop :=
  m.state.KeepsRecords l.1.1 (m.state.entered l.1.1 l.1.2)

instance (m : Machine) (l : Event) : Decidable (KeepsRecords m l) :=
  inferInstanceAs (Decidable (State.KeepsRecords _ _ _))

/-- Segments and records agree, and the records are those of live processes with memory. -/
structure State.Recorded (s : State) (held : Multiset (Nat × Nat)) : Prop where
  agrees : s.Agrees held
  live : ∀ row i, s.attachtable row i ≠ none → ∃ q, (s.proc q).state.live = true ∧
    pidslot (s.proc q).pid = some row ∧ (s.proc q).pagetable.isSome
  sized : s.Sized
  pid_inj : ∀ q r, (s.proc q).state.live = true → (s.proc r).state.live = true →
    (s.proc q).pid = (s.proc r).pid → q = r

section Runs

variable {s s' : State} {p : Slot} {held held' : Multiset (Nat × Nat)}

theorem State.Recorded.steady (recorded : s.Recorded held) (steady : s.Steady s') (sized : s'.Sized)
    (agrees : s'.Agrees held')
    (records : ∀ row i, s'.attachtable row i ≠ none → s.attachtable row i ≠ none ∨
      (s.proc p).state.live = true ∧ pidslot (s.proc p).pid = some row ∧
        (s.proc p).pagetable.isSome) : s'.Recorded held' := by
  refine ⟨agrees, fun row i present => ?_, sized, fun q r live live' same => ?_⟩
  · have owner : ∃ q, (s.proc q).state.live = true ∧ pidslot (s.proc q).pid = some row ∧
        (s.proc q).pagetable.isSome := by
      rcases records row i present with old | new
      · exact recorded.live row i old
      · exact ⟨p, new⟩
    obtain ⟨q, live, slot, table⟩ := owner
    refine ⟨q, ?_, ?_, ?_⟩
    · rw [steady.state]
      exact live
    · rw [steady.pid]
      exact slot
    · rw [steady.table]
      exact table
  · rw [steady.state] at live live'
    rw [steady.pid, steady.pid] at same
    exact recorded.pid_inj q r live live' same

theorem State.Recorded.exit (recorded : s.Recorded held) (live : (s.proc p).state.live = true)
    (detached : s.Detached (s.proc p).pid) (status : Int) (sized : (s.exited p status).Sized) :
    (s.exited p status).Recorded held := by
  have same (q : Slot) := State.exited_same (inUse_of_live live) status q
  have alive {q : Slot} (live : ((s.exited p status).proc q).state.live = true) :
      (s.proc q).state.live = true := by
    rw [State.exited_state] at live
    split at live
    · cases live
    · exact live
  refine ⟨recorded.agrees.same ⟨rfl, rfl⟩, fun row i present => ?_, sized,
    fun q r live live' pids => ?_⟩
  · obtain ⟨q, live, slot, table⟩ := recorded.live row i present
    have other : q ≠ p := by
      rintro rfl
      exact present (detached row slot i)
    refine ⟨q, ?_, ?_, ?_⟩
    · rw [State.exited_state, if_neg other]
      exact live
    · rw [(same q).pid]
      exact slot
    · rw [(same q).table]
      exact table
  · rw [(same q).pid, (same r).pid] at pids
    exact recorded.pid_inj q r (alive live) (alive live') pids

theorem Attaches.recorded {shmid : Int} {value : Option Nat} (effect : Attaches shmid s p s' value)
    (recorded : s.Recorded held) (live : (s.proc p).state.live = true)
    (room : s.HasRecord p (.shmattach shmid)) (sized : s'.Sized) :
    s'.Recorded (value.elim held fun addr => ((s.proc p).pid, addr) ::ₘ held) := by
  cases effect with
  | refused => exact recorded
  | undone place =>
    exact recorded.steady (p := p) (State.setImage_steady place.memory _) sized
      (recorded.agrees.same ⟨rfl, rfl⟩) fun row i present => .inl present
  | @attached id seg row image pt k place =>
    have steady := State.setImage_steady place.memory { image with pagetable := pt, kmem := k }
    obtain ⟨i, free⟩ := Option.ne_none_iff_exists'.mp (room row place.slot)
    have present := State.segOf_some place.found
    have good : (s.setImage p { image with pagetable := pt, kmem := k }).GoodRecord
        { shmid := id, va := attachVpn image.sz * PGSIZE, npages := seg.npages } := by
      refine ⟨?_, attach_range (recorded.sized.image place.memory)
        (recorded.agrees.short id seg present) place.fits⟩
      exact (congrArg Option.isSome present).trans rfl
    have shm : s.SameShm (s.setImage p { image with pagetable := pt, kmem := k }) := ⟨rfl, rfl⟩
    have agrees := (recorded.agrees.same shm).attach (State.freeRecord_some free) good
    have free' : ((s.setImage p { image with pagetable := pt, kmem := k }).addRef id 1).freeRecord
      row = some i := free
    rw [Option.elim_some, pidslot_val place.slot]
    unfold State.record at sized ⊢
    rw [free'] at sized ⊢
    refine recorded.steady (p := p) ⟨steady.pid, steady.state, steady.table⟩ sized agrees ?_
    intro row' i' there
    obtain ⟨entry, made⟩ := Option.ne_none_iff_exists'.mp there
    rcases State.of_setRecord made with old | ⟨here, _⟩
    · exact .inl fun none => nomatch old.symm.trans none
    · rw [here, (State.image_some place.memory).1]
      exact .inr ⟨live, place.slot, rfl⟩

theorem Detaches.recorded {addr : Nat} (effect : Detaches addr s p s' value)
    (recorded : s.Recorded held) (sized : s'.Sized) :
    s'.Recorded (value.elim held fun _ => held.erase ((s.proc p).pid, addr)) := by
  cases effect with
  | absent => exact recorded
  | @detached row i entry image pt slot present va memory =>
    have steady : s.Steady _ := State.setImage_steady memory { image with pagetable := pt }
    have agrees := recorded.agrees.detach present
    rw [va, ← pidslot_val slot] at agrees
    refine recorded.steady (p := p) ⟨steady.pid, steady.state, steady.table⟩ sized
      (agrees.same ⟨rfl, rfl⟩) ?_
    intro row' i' there
    obtain ⟨entry, made⟩ := Option.ne_none_iff_exists'.mp there
    rcases State.of_setRecord made with old | ⟨_, _, none⟩
    · exact .inl fun none => nomatch old.symm.trans none
    · cases none

theorem Effect.recorded {value : Option Nat} (effect : Effect s p c s' value)
    (recorded : s.Recorded held) (live : (s.proc p).state.live = true) (keeps : s.KeepsRecords p c)
    (sized : s'.Sized) : s'.Recorded (c.noteAddress (s.proc p).pid held value) := by
  cases c with
  | exit status =>
    obtain ⟨rfl, rfl⟩ := effect
    exact recorded.exit live keeps status sized
  | shmget key size =>
    cases effect with
    | same => exact recorded
    | failed =>
      exact recorded.steady (p := p) ⟨fun _ => rfl, fun _ => rfl, fun _ => rfl⟩ sized
        (recorded.agrees.same ⟨rfl, rfl⟩) fun row i present => .inl present
    | made unused _ _ short zero =>
      exact recorded.steady (p := p) ⟨fun _ => rfl, fun _ => rfl, fun _ => rfl⟩ sized
        (recorded.agrees.add unused zero short rfl rfl) fun row i present => .inl present
  | shmattach shmid =>
    have attached := Attaches.recorded effect recorded live keeps sized
    cases value with
    | none | some => exact attached
  | shmdetach addr =>
    have detached := Detaches.recorded effect recorded sized
    cases value with
    | none | some => exact detached
  | sbrk n eager =>
    obtain ⟨memory, _⟩ := effect
    exact recorded.steady (p := p) (State.setImage_steady memory _) sized
      (recorded.agrees.same ⟨rfl, rfl⟩) fun row i present => .inl present
  | fork | clone | wait | waitx | join | exec | kill | fault => exact keeps.elim

theorem State.Recorded.step (recorded : m.state.Recorded held) (blank : m.state.Blank)
    (keeps : Vm.KeepsRecords m l) (step : exec m l.1 = some (m', l.2)) :
    m'.state.Recorded (noteAddress held m l) ∧ m'.state.Blank := by
  obtain ⟨⟨p, c⟩, value⟩ := l
  obtain ⟨live, ⟨_, effect⟩ | ⟨same, none, _⟩⟩ := exec_effect step blank recorded.sized
  · obtain ⟨blank', sized'⟩ := effect.blank blank recorded.sized live
    exact ⟨effect.recorded recorded live keeps sized', blank'⟩
  subst none
  have noted : noteAddress held m ((p, c), none) = held := by
    unfold noteAddress Call.noteAddress
    split
    · next none => cases none
    · next none => cases none
    · rfl
  rw [noted, same]
  exact ⟨recorded, blank⟩

theorem Unattached.recorded (start : Unattached m) : m.state.Recorded 0 := by
  have none {M : Type} [AddCommMonoid M] (f : Fin NPROC → Shmattach → M) :
      m.state.sumRecords f = 0 := by
    refine sum_eq_zero fun row _ => sum_eq_zero fun i _ => ?_
    rw [start.detached row i]
    rfl
  refine ⟨⟨fun id seg present => ?_, (none _).symm, fun row i entry present => ?_,
    fun id seg present => (start.inv.segments present).2⟩, fun row i present => ?_,
    start.inv.sized, fun q r live live' same => ?_⟩
  · rw [start.uncounted id seg present]
    exact (none _).symm
  · rw [start.detached row i] at present
    cases present
  · exact absurd (start.detached row i) present
  · exact start.inv.pid_inj (tracked_of_live live).1 (tracked_of_live live').1 same

theorem State.Recorded.refs_eq (recorded : s.Recorded held) (id : Fin NSHM) :
    s.refs id = (s.records id).card := by
  have same : s.records id =
      Finset.univ.filter fun x => (s.attachtable x.1 x.2).any (·.shmid = id) := by
    refine Finset.filter_congr fun x _ => ?_
    refine and_iff_left_of_imp fun there => ?_
    have present : s.attachtable x.1 x.2 ≠ none := by
      intro none
      rw [none] at there
      cases there
    obtain ⟨q, live, slot, _⟩ := recorded.live x.1 x.2 present
    exact ⟨q, live, slot⟩
  rw [same, Finset.card_filter, Nat.cast_sum, Fintype.sum_prod_type]
  unfold State.refs State.sumRecords
  refine sum_congr rfl fun row _ => sum_congr rfl fun i _ => ?_
  cases s.attachtable row i with
  | none => rfl
  | some entry =>
    by_cases here : entry.shmid = id
    · simp [here]
    · simp [here]

theorem State.Recorded.mem (recorded : s.Recorded held)
    (attached : (pid, addr) ∈ held) : ∃ q row i entry, (s.proc q).state.live = true ∧
      (s.proc q).pid = pid ∧ pidslot pid = some row ∧ s.attachtable row i = some entry ∧
        entry.va = addr ∧ (s.proc q).pagetable.isSome := by
  rw [recorded.agrees.held] at attached
  unfold State.addresses State.sumRecords at attached
  obtain ⟨row, _, inRow⟩ := Multiset.mem_sum.mp attached
  obtain ⟨i, _, there⟩ := Multiset.mem_sum.mp inRow
  cases present : s.attachtable row i with
  | none =>
    rw [present] at there
    exact absurd there (Multiset.notMem_zero _)
  | some entry =>
    rw [present, Option.elim_some, Multiset.mem_singleton] at there
    cases there
    obtain ⟨q, live, slot, table⟩ := recorded.live row i
      fun none => by cases present.symm.trans none
    have pid := pidslot_val slot
    exact ⟨q, row, i, entry, live, pid, pid ▸ slot, present, rfl, table⟩

theorem State.Recorded.noneLost (recorded : m.state.Recorded held) : NoneLost (m, held) where
  counted id seg present := (recorded.agrees.refs id seg present).trans (recorded.refs_eq id)
  recorded pid addr attached := by
    obtain ⟨q, row, i, entry, live, own, slot, present, va, _⟩ := recorded.mem attached
    exact ⟨q, row, i, entry, live, own, slot, present, va⟩
  detaches p addr live attached := by
    obtain ⟨q, row, i, entry, live', own, slot, present, va, table⟩ := recorded.mem attached
    have same : q = p := recorded.pid_inj q p live' live own
    rw [same] at table
    obtain ⟨s', done⟩ := shmdetach_succeeds slot table ⟨entry, present, va⟩
      fun j entry present => recorded.agrees.good row j entry present
    refine ⟨s', ?_⟩
    have returns : Vm.call m.state p (.shmdetach addr) = some <$> shmdetach m.state p addr := rfl
    rw [returns, done]
    rfl

/-- **No attachment is lost** as long as a process detaches what it has attached before it
exits, and attaches only while there is a free record in its row. -/
theorem noneLost_of_keepsRecords {x : Machine × Multiset (Nat × Nat)}
    (reach : recording.ReachableWhen (fun x l => KeepsRecords x.1 l) x) : NoneLost x := by
  have recorded : x.1.state.Recorded x.2 ∧ x.1.state.Blank := by
    refine reach.invariant (P := fun x => x.1.state.Recorded x.2 ∧ x.1.state.Blank) ?_ ?_
    · rintro ⟨m, held⟩ ⟨start, none⟩
      subst none
      exact ⟨start.recorded, start.inv.blank⟩
    · rintro ⟨m, held⟩ l ⟨m', held'⟩ ⟨recorded, blank⟩ keeps ⟨step, noted⟩
      subst noted
      exact recorded.step blank keeps step
  exact recorded.1.noneLost

end Runs

/-- Two processes attach a segment, and one of them detaches it and exits. -/
theorem noneLost_attached : ∃ x, recording.ReachableWhen (fun x l => KeepsRecords x.1 l) x ∧
    (x.1.state.segtable 0).map (·.refcnt) = some 1 ∧ NoneLost x := by
  obtain ⟨x, reach, refs⟩ : ∃ x, recording.ReachableWhen (fun x l => KeepsRecords x.1 l) x ∧
      (x.1.state.segtable 0).map (·.refcnt) = some 1 :=
    Lts.exists_of_replay KeepsRecords forked_unattached
      [(0, .shmattach 0), (1, .shmattach 0), (1, .shmdetach 16384), (1, .exit 0)]
      (by decide +kernel)
  exact ⟨x, reach, refs, noneLost_of_keepsRecords reach⟩

end Xv6.Vm
