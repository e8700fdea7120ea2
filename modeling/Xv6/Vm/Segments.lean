import Xv6.Vm.Step

/-!
# What the calls of `sysshm.c` do

`shmget` returns a segment, `shmattach` maps its pages above the heap of the caller, and
`shmdetach` takes them away again.
-/

namespace Xv6.Vm

open Function

/-! ## The size of a segment -/

/-- A segment has a page for each of its `npages`, and at most `SHM_MAXPAGES`. -/
def State.Segmented (s : State) : Prop :=
  ∀ id seg, s.segtable id = some seg →
    seg.pages.length = seg.npages.toNat ∧ seg.npages ≤ SHM_MAXPAGES

theorem State.Segmented.addRef {s : State} (segmented : s.Segmented) (id : Fin NSHM) (d : Int) :
    (s.addRef id d).Segmented := by
  intro id' seg present
  obtain ⟨old, was, npages, pages, _⟩ := State.addRef_segtable present
  rw [npages, pages]
  exact segmented id' old was

theorem State.record_keeps (s : State) (row : Fin NPROC) (entry : Shmattach) :
    (s.record row entry).segtable = s.segtable ∧ (s.record row entry).kmem = s.kmem := by
  unfold State.record
  split
  · exact ⟨rfl, rfl⟩
  · exact ⟨rfl, rfl⟩

theorem Effect.segmented {s s' : State} (segmented : s.Segmented) (effect : Effect s p c s' value) :
    s'.Segmented := by
  cases shm : c.isShm with
  | false =>
    unfold State.Segmented
    rw [(effect.sameShm shm).1]
    exact segmented
  | true =>
    cases c with
    | shmget key size =>
      cases effect with
      | same | failed => exact segmented
      | @made id seg _ _ _ length short =>
        intro id' seg' present
        by_cases here : id' = id
        · dsimp only at present
          rw [here, update_self] at present
          cases present
          exact ⟨length, short⟩
        · dsimp only at present
          rw [update_of_ne here] at present
          exact segmented id' seg' present
    | shmattach shmid =>
      cases effect with
      | refused | undone => exact segmented
      | @attached id _ _ image pt k =>
        unfold State.Segmented
        rw [(State.record_keeps _ _ _).1]
        have same : (s.setImage p { image with pagetable := pt, kmem := k }).Segmented := segmented
        exact same.addRef id 1
    | shmdetach addr =>
      cases effect with
      | absent => exact segmented
      | @detached row i entry image pt =>
        have same : ((s.setRecord row i none).setImage p
            { image with pagetable := pt }).Segmented :=
          segmented
        exact same.addRef entry.shmid (-1)
    | _ => cases shm

theorem segmented_of_reachable (reach : system.Reachable m) : m.state.Segmented := by
  have carried : (m.state.Blank ∧ m.state.Sized) ∧ m.state.Segmented := by
    refine reach.invariant
      (P := fun m => (m.state.Blank ∧ m.state.Sized) ∧ m.state.Segmented) ?_ ?_
    · intro m start
      exact ⟨⟨start.inv.blank, start.inv.sized⟩, fun _ _ present => start.inv.segments present⟩
    · intro m ⟨⟨p, c⟩, value⟩ m' ⟨⟨blank, sized⟩, segmented⟩ step
      obtain ⟨live, ⟨_, effect⟩ | ⟨same, _⟩⟩ := exec_effect step blank sized
      · exact ⟨effect.blank blank sized live, effect.segmented segmented⟩
      · rw [same]
        exact ⟨⟨blank, sized⟩, segmented⟩
  exact carried.2

/-- Entry `id` of `segtable` has this key and room for `size` bytes. -/
def State.Serves (s : State) (id : Nat) (key size : Int) : Prop :=
  ∃ i seg, i.val = id ∧ s.segtable i = some seg ∧ seg.key = key ∧ 1 ≤ seg.npages ∧
    seg.npages ≤ SHM_MAXPAGES ∧ size ≤ seg.npages * PGSIZE

/-- The segment with the key, if there is one, is large enough, and otherwise the size can be
rounded up to pages without overflow. -/
def State.Covers (s : State) (key size : Int) : Prop :=
  match s.findKey key with
  | some i => ∀ seg, s.segtable i = some seg → size ≤ seg.npages * PGSIZE
  | none => size + (PGSIZE - 1) < 2 ^ 31

/-- The rounded size covers the size exactly if the sum does not wrap. -/
theorem wrap32_npages (positive : 0 < size) (int : size < 2 ^ 31) :
    (1 ≤ (wrap32 (size + (PGSIZE - 1))).tdiv PGSIZE ∧
      size ≤ (wrap32 (size + (PGSIZE - 1))).tdiv PGSIZE * PGSIZE) ↔
      size + (PGSIZE - 1) < 2 ^ 31 := by
  unfold wrap32 PGSIZE
  by_cases small : size + ((4096 : Nat) - 1) < 2 ^ 31
  · have same : (size + (((4096 : Nat) : Int) - 1) + 2 ^ 31) % 2 ^ 32 - 2 ^ 31 = size + 4095 := by
      omega
    rw [same, Int.tdiv_eq_ediv_of_nonneg (by omega)]
    omega
  · have negative : (size + (((4096 : Nat) : Int) - 1) + 2 ^ 31) % 2 ^ 32 - 2 ^ 31 =
        -(2 ^ 32 - size - 4095) := by
      omega
    rw [negative, Int.neg_tdiv, Int.tdiv_eq_ediv_of_nonneg (by omega)]
    omega

theorem State.findKey_some {s : State} (found : s.findKey key = some i) :
    ∃ seg, s.segtable i = some seg ∧ seg.key = key := by
  have there := List.find?_some found
  obtain ⟨seg, present, same⟩ := (Option.any_eq_true _ _).mp there
  exact ⟨seg, present, of_decide_eq_true same⟩

/-- What a call of `shmget` that returns an id has found or made. -/
theorem shmget_returns {s s' : State} {id : Nat}
    (returned : shmget s key size = .ok (s', some id)) :
    0 < size ∧ ∃ i seg, i.val = id ∧ s'.segtable i = some seg ∧ seg.key = key ∧
      (s.findKey key = some i ∧ s' = s ∨
        s.findKey key = none ∧ seg.npages = (wrap32 (size + (PGSIZE - 1))).tdiv PGSIZE ∧
          seg.npages ≤ SHM_MAXPAGES) := by
  unfold shmget at returned
  dsimp only at returned
  split at returned
  · cases returned
  rename_i positive
  refine ⟨Int.not_le.mp positive, ?_⟩
  split at returned
  · cases returned
  rename_i short
  split at returned
  · next i found =>
    cases returned
    obtain ⟨seg, present, same⟩ := State.findKey_some found
    exact ⟨i, seg, rfl, present, same, .inl ⟨found, rfl⟩⟩
  · cases returned
  next i found _ =>
    cases allocated : allocPages ((wrap32 (size + (PGSIZE - 1))).tdiv PGSIZE).toNat [] s.kmem with
    | error e =>
      rw [allocated] at returned
      cases returned
    | ok made =>
      obtain ⟨k, pages⟩ := made
      rw [allocated] at returned
      cases pages with
      | none => cases returned
      | some pages =>
        cases returned
        exact ⟨i, _, rfl, update_self _ _ _, rfl, .inr ⟨found, rfl, Int.not_lt.mp short⟩⟩

/-- The call returns a segment with too few pages. -/
theorem shmget_short {i : Fin NSHM} {n : Int} (shown : (shmget s key size).toOption.map
      (fun x => (x.2, (x.1.segtable i).map (·.npages))) = some (some i.val, some n))
    (short : n * PGSIZE < size) :
    ∃ s', shmget s key size = .ok (s', some i.val) ∧ ¬ s'.Serves i key size := by
  obtain ⟨⟨s', value⟩, returned, facts⟩ := Option.map_eq_some_iff.mp shown
  obtain ⟨rfl, npages⟩ := Prod.mk.inj facts
  refine ⟨s', Outcome.ok_of_toOption returned, fun ⟨j, seg, same, present, _, _, _, large⟩ => ?_⟩
  rw [Fin.ext same] at present
  rw [present, Option.map_some, Option.some.injEq] at npages
  rw [npages] at large
  omega

/-- A size that wraps when it is rounded up, and a key whose segment is smaller than the size. -/
theorem shmget_overflow : (¬ ∀ m, system.Reachable m → ∀ key size s' id, size < 2 ^ 31 →
      shmget m.state key size = .ok (s', some id) → s'.Serves id key size) ∧
    ∃ s', shmget forked.state 1 8192 = .ok (s', some 0) ∧ ¬ s'.Serves 0 1 8192 := by
  refine ⟨fun all => ?_, shmget_short (i := 0) (n := 1) (by decide +kernel) (by decide)⟩
  obtain ⟨s', returned, fails⟩ : ∃ s', shmget forked.state 9 (2 ^ 31 - 1) = .ok (s', some 1) ∧
      ¬ s'.Serves 1 9 (2 ^ 31 - 1) :=
    shmget_short (i := 1) (n := -524287) (by decide +kernel) (by decide)
  exact fails (all forked (.init forked_start) _ _ _ _ (by decide) returned)

/-- **`shmget` returns a segment of the requested size** exactly if it finds one that is large
enough or rounds the size up without overflow. -/
theorem shmget_serves_iff {m : Machine} (reach : system.Reachable m) {key size : Int}
    (int : size < 2 ^ 31) {s' : State} {id : Nat}
    (returned : shmget m.state key size = .ok (s', some id)) :
    s'.Serves id key size ↔ m.state.Covers key size := by
  obtain ⟨positive, i, seg, place, present, same, found | ⟨fresh, npages, short⟩⟩ :=
    shmget_returns returned
  · obtain ⟨found, rfl⟩ := found
    unfold State.Covers
    rw [found]
    constructor
    · rintro ⟨i', seg', place', present', _, _, _, large⟩ seg1 present1
      rw [Fin.ext (place'.trans place.symm), present1] at present'
      cases present'
      exact large
    · intro large
      have enough := large seg present
      refine ⟨i, seg, place, present, same, ?_,
        (segmented_of_reachable reach i seg present).2, enough⟩
      unfold PGSIZE at enough
      omega
  · unfold State.Covers
    rw [fresh, ← wrap32_npages positive int, ← npages]
    constructor
    · rintro ⟨i', seg', place', present', _, least, _, large⟩
      rw [Fin.ext (place'.trans place.symm), present] at present'
      cases present'
      exact ⟨least, large⟩
    · rintro ⟨least, large⟩
      exact ⟨i, seg, place, present, same, least, short, large⟩

theorem shmget_serves_page :
    ∃ s', shmget forked.state 9 4096 = .ok (s', some 1) ∧ s'.Serves 1 9 4096 := by
  have shown : (shmget forked.state 9 4096).toOption.map (·.2) = some (some 1) := by
    decide +kernel
  obtain ⟨⟨s', value⟩, returned, ⟨⟩⟩ := Option.map_eq_some_iff.mp shown
  have made := Outcome.ok_of_toOption returned
  have fresh : forked.state.findKey 9 = none := by decide +kernel
  refine ⟨s', made, (shmget_serves_iff (.init forked_start) (by decide) made).mpr ?_⟩
  unfold State.Covers
  rw [fresh]
  decide

/-! ## Calls that fail -/

/-- Nothing is mapped where `shmattach` would put the segment. -/
def State.TargetFree (s : State) (p : Slot) (shmid : Int) : Prop :=
  ∀ id seg, s.segOf shmid = some (id, seg) → ∀ v, attachVpn (s.proc p).sz ≤ v →
    v < attachVpn (s.proc p).sz + seg.pages.length → (s.proc p).leaf v = none

theorem clearRange_unmapped (unmapped : ∀ v, vpn ≤ v → v < vpn + n → leaf v = none) :
    clearRange leaf vpn n = leaf := by
  funext v
  unfold clearRange
  split
  · next inside => exact (unmapped v inside.1 inside.2).symm
  · rfl

/-- **A call that returns -1 changes nothing**, but for the order of the free list and the tables
that hold no mapping. -/
theorem failed_shm_unchanged (s : State) :
    (∀ key size s', shmget s key size = .ok (s', none) →
      s' = { s with kmem := s'.kmem } ∧ (s'.kmem.free : Multiset Nat) = s.kmem.free) ∧
    ∀ p shmid s', shmattach s p shmid = .ok (s', none) → s.TargetFree p shmid →
      (∀ q, (s'.proc q).leaf = (s.proc q).leaf) ∧ s'.segtable = s.segtable ∧
        s'.attachtable = s.attachtable := by
  constructor
  · intro key size s' failed
    have ends := shmget_ends s key size
    rw [failed] at ends
    have gets : Gets s s' none := ends.value
    cases gets with
    | same => exact ⟨rfl, rfl⟩
    | failed free => exact ⟨rfl, free⟩
  · intro p shmid s' failed unmapped
    have ends := shmattach_ends s p shmid
    rw [failed] at ends
    have attaches : Attaches shmid s p s' none := ends.value
    cases attaches with
    | refused => exact ⟨fun _ => rfl, rfl, rfl⟩
    | @undone id seg _ image pt k n place _ le cleared =>
      refine ⟨fun q => ?_, rfl, rfl⟩
      by_cases here : q = p
      · obtain ⟨table, size, _⟩ := State.image_some place.memory
        have target := unmapped id seg place.found
        rw [size, Proc.leaf_eq table] at target
        rw [here, State.setImage_self, Proc.leaf_eq rfl, Proc.leaf_eq table, cleared]
        exact clearRange_unmapped fun v low high => target v low (by omega)
      · rw [State.setImage_other _ here]

/-- The first process has a heap of 510 pages and a segment of two, and there is no free page. -/
def exhausted : State :=
  { forked.state with
    proc := update forked.state.proc 0 { forked.state.proc 0 with sz := 510 * PGSIZE }
    kmem := { forked.state.kmem with free := [] }
    segtable := update forked.state.segtable 0
      (some { key := 1, npages := 2, refcnt := 0, pages := [0x80200, 0x80201] }) }

/-- The second page of the segment needs a new table. -/
theorem exhausted_shmattach_unchanged :
    ∃ s', shmattach exhausted 0 0 = .ok (s', none) ∧
      (s'.proc 0).leaf = (exhausted.proc 0).leaf := by
  have shown : (shmattach exhausted 0 0).toOption.map (·.2) = some none := by decide +kernel
  obtain ⟨⟨s', value⟩, returned, ⟨⟩⟩ := Option.map_eq_some_iff.mp shown
  have failed := Outcome.ok_of_toOption returned
  refine ⟨s', failed, ((failed_shm_unchanged exhausted).2 0 0 s' failed ?_).1 0⟩
  intro id seg found v low high
  have segment : (exhausted.segOf 0).map (fun x => x.2.pages.length) = some 2 := by decide +kernel
  rw [found, Option.map_some, Option.some.injEq] at segment
  dsimp only at segment
  have place : attachVpn (exhausted.proc 0).sz = 511 := by decide +kernel
  have unmapped : (exhausted.proc 0).leaf 511 = none ∧ (exhausted.proc 0).leaf 512 = none := by
    decide +kernel
  obtain rfl | rfl : v = 511 ∨ v = 512 := by omega
  · exact unmapped.1
  · exact unmapped.2

/-! ## Attaching and detaching -/

/-- The physical address of a virtual one. -/
def Proc.physical (P : Proc) (va : Nat) : Option Nat :=
  (P.leaf (va / PGSIZE)).map fun pte => pte.ppn * PGSIZE + va % PGSIZE

/-- The pages are mapped from `va` on, and the user may read and write them. -/
def Proc.Shares (P : Proc) (va : Nat) (pages : List Nat) : Prop :=
  va % PGSIZE = 0 ∧ ∀ i page, pages[i]? = some page →
    P.leaf (va / PGSIZE + i) = some { ppn := page, perm := { r := true, w := true, u := true } }

theorem Proc.Shares.physical {P : Proc} {pages : List Nat} (shares : P.Shares va pages)
    (there : pages[o / PGSIZE]? = some page) :
    P.physical (va + o) = some (page * PGSIZE + o % PGSIZE) := by
  obtain ⟨aligned, mapped⟩ := shares
  have quot : (va + o) / PGSIZE = va / PGSIZE + o / PGSIZE := by
    unfold PGSIZE at *
    omega
  have rem : (va + o) % PGSIZE = o % PGSIZE := by
    unfold PGSIZE at *
    omega
  unfold Proc.physical
  rw [quot, rem, mapped _ _ there]
  rfl

/-- What `shmattach` has done when it returns `va`. -/
structure Attachment (s : State) (p : Slot) (id : Fin NSHM) (seg : Shmseg) (va : Nat)
    (s1 : State) : Prop where
  shares : (s1.proc p).Shares va seg.pages
  unmapped : ∀ v, va / PGSIZE ≤ v → v < va / PGSIZE + seg.pages.length → (s.proc p).leaf v = none
  outside : ∀ v, ¬ (va / PGSIZE ≤ v ∧ v < va / PGSIZE + seg.pages.length) →
    (s1.proc p).leaf v = (s.proc p).leaf v
  others : ∀ q, q ≠ p → s1.proc q = s.proc q
  counted : s1.segtable = (s.addRef id 1).segtable
  pages : (s1.kmem.free : Multiset Nat) + (s1.proc p).kpages = s.kmem.free + (s.proc p).kpages

/-- What `shmdetach` has done when it returns 0: the translations are those of `s`. -/
structure Detachment (s s2 : State) (p : Slot) (id : Fin NSHM) (s3 : State) : Prop where
  restored : (s3.proc p).leaf = (s.proc p).leaf
  others : ∀ q, q ≠ p → s3.proc q = s2.proc q
  counted : s3.segtable = (s2.addRef id (-1)).segtable
  pages : s3.kmem = s2.kmem ∧ (s3.proc p).kpages = (s2.proc p).kpages

/-- The process still has its page table and its records. -/
structure State.Undisturbed (s1 : State) (p : Slot) (s2 : State) : Prop where
  pid : (s2.proc p).pid = (s1.proc p).pid
  table : (s2.proc p).pagetable = (s1.proc p).pagetable
  records : ∀ row, pidslot (s1.proc p).pid = some row → s2.attachtable row = s1.attachtable row

theorem State.addRef_undo {s t : State} (counted : t.segtable = (s.addRef i 1).segtable) :
    (t.addRef i (-1)).segtable = s.segtable := by
  unfold State.addRef at *
  dsimp only at *
  rw [counted, update_self, update_idem, Option.map_map]
  have same : ((fun seg : Shmseg => { seg with refcnt := seg.refcnt + -1 }) ∘
      fun seg => { seg with refcnt := seg.refcnt + 1 }) = id := by
    funext seg
    simp
  rw [same, Option.map_id, id, update_eq_self]

theorem State.record_only {s : State} (empty : ∀ j, s.attachtable row j = none)
    (entry : Shmattach) :
    ∃ i, ∀ j, (s.record row entry).attachtable row j = if j = i then some entry else none := by
  unfold State.record
  split
  · next full =>
    have taken := List.find?_eq_none.mp full 0 (List.mem_finRange 0)
    rw [empty 0] at taken
    simp at taken
  · next i _ =>
    refine ⟨i, fun j => ?_⟩
    split
    · next same => rw [same, State.setRecord_self]
    · next other => rw [State.setRecord_other _ _ fun both => other both.2, empty]

theorem shmattach_returns {s s1 : State} (attached : shmattach s p shmid = .ok (s1, some va)) :
    ∃ id seg row, s.segOf shmid = some (id, seg) ∧ pidslot (s.proc p).pid = some row ∧
      Attachment s p id seg va s1 ∧ (s1.proc p).pid = (s.proc p).pid ∧
      (∃ pt, (s1.proc p).pagetable = some pt) ∧
      (seg.pages.length = 0 ∨ va / PGSIZE + seg.pages.length ≤ MAXVPN) ∧
      ((∀ j, s.attachtable row j = none) → ∃ i, ∀ j, s1.attachtable row j =
        if j = i then some { shmid := id, va := va, npages := seg.npages } else none) := by
  have ends := shmattach_ends s p shmid
  rw [attached] at ends
  have attaches : Attaches shmid s p s1 (some va) := ends.value
  cases attaches with
  | @attached id seg row image pt k place walked mapped =>
    obtain ⟨table, _, memory⟩ := State.image_some place.memory
    have page : attachVpn image.sz * PGSIZE / PGSIZE = attachVpn image.sz :=
      Nat.mul_div_cancel _ (by decide)
    have self := State.setImage_self s p { image with pagetable := pt, kmem := k }
    refine ⟨id, seg, row, place.found, place.slot, ?_, ?_, ⟨pt, ?_⟩, ?_, ?_⟩
    · constructor
      · refine ⟨Nat.mul_mod_left _ _, fun i page' there => ?_⟩
        rw [State.record_proc, page]
        exact (congrFun (Proc.leaf_eq (congrArg Proc.pagetable self)) _).trans
          (mapped.inside i page' there)
      · intro v low high
        rw [page] at low high
        rw [Proc.leaf_eq table]
        exact (mapped.unmapped v low high).2
      · intro v out
        rw [page] at out
        rw [State.record_proc, Proc.leaf_eq table]
        exact (congrFun (Proc.leaf_eq (congrArg Proc.pagetable self)) _).trans
          (mapped.outside v out)
      · intro q other
        rw [State.record_proc]
        exact State.setImage_other _ other
      · rw [(State.record_keeps _ _ _).1]
        rfl
      · rw [(State.record_keeps _ _ _).2, State.record_proc]
        have same := walked.pages
        rw [← memory] at same
        have kpages := congrArg Proc.kpages self
        unfold Proc.kpages at kpages ⊢
        rw [table]
        refine (congrArg ((k.free : Multiset Nat) + ·) kpages).trans ?_
        dsimp only [Option.elim_some]
        rw [add_left_comm, same, add_left_comm]
    · rw [State.record_proc]
      exact congrArg (fun P => P.pid) self
    · rw [State.record_proc]
      exact congrArg Proc.pagetable self
    · by_cases empty : seg.pages.length = 0
      · exact .inl empty
      · have last := (mapped.unmapped (attachVpn image.sz + seg.pages.length - 1) (by omega)
          (by omega)).1
        exact .inr (by omega)
    · intro empty
      refine State.record_only ?_ _
      exact empty

theorem State.findRecord_only {s : State}
    (only : ∀ j, s.attachtable row j = if j = i then some entry else none) :
    s.findRecord row entry.va = some i := by
  cases found : s.findRecord row entry.va with
  | none =>
    have missing := List.find?_eq_none.mp found i (List.mem_finRange i)
    rw [only i, if_pos rfl] at missing
    simp at missing
  | some j =>
    obtain ⟨entry', present, _⟩ := State.findRecord_some found
    rw [only j] at present
    split at present
    · next same => rw [same]
    · cases present

theorem uvmunmap_range (pt : PageTable) (k : Kmem) (small : n = 0 ∨ vpn + n ≤ MAXVPN) :
    ∃ pt', uvmunmap pt k vpn n false = .ok (pt', k) ∧ pt'.pages = pt.pages ∧
      pt'.lookup = clearRange pt.lookup vpn n := by
  rcases small with rfl | small
  · exact ⟨pt, rfl, rfl, (clearRange_zero _ _).symm⟩
  · exact uvmunmap_ok pt k vpn n small

theorem shmdetach_only {s : State} (slot : pidslot (s.proc p).pid = some row)
    (table : (s.proc p).pagetable = some pt)
    (only : ∀ j, s.attachtable row j = if j = i then some entry else none)
    (small : entry.npages.toNat = 0 ∨ entry.va / PGSIZE + entry.npages.toNat ≤ MAXVPN) :
    ∃ pt', pt'.pages = pt.pages ∧
      pt'.lookup = clearRange pt.lookup (entry.va / PGSIZE) entry.npages.toNat ∧
      shmdetach s p entry.va = .ok (((s.setRecord row i none).setImage p
        { pagetable := pt', sz := (s.proc p).sz, kmem := s.kmem }).addRef entry.shmid (-1),
        some 0) := by
  obtain ⟨pt', run, pages, cleared⟩ := uvmunmap_range pt s.kmem small
  have memory : s.image p = some { pagetable := pt, sz := (s.proc p).sz, kmem := s.kmem } := by
    unfold State.image
    rw [table]
    rfl
  refine ⟨pt', pages, cleared, ?_⟩
  unfold shmdetach
  simp only [slot, State.findRecord_only only, only i, if_pos, memory, run]
  rfl

theorem shmdetach_absent (row : Fin NPROC) (slot : pidslot (s.proc p).pid = some row)
    (empty : ∀ j, s.attachtable row j = none) : shmdetach s p addr = .ok (s, none) := by
  have missing : s.findRecord row addr = none := by
    refine List.find?_eq_none.mpr fun j _ => ?_
    rw [empty j]
    simp
  unfold shmdetach
  simp only [slot, missing]

/-- **An attachment is undone by its detach.** The pages of the segment are mapped where nothing
was, so that two processes that attach it share its bytes. A detach restores the translations and
the count, and a second one finds no record. -/
theorem shmattach_shmdetach {s s1 : State} {p : Slot} {shmid : Int} {va : Nat}
    (segmented : s.Segmented) (detached : s.Detached (s.proc p).pid)
    (attached : shmattach s p shmid = .ok (s1, some va)) :
    ∃ id seg, s.segOf shmid = some (id, seg) ∧ seg.pages.length = seg.npages.toNat ∧
      Attachment s p id seg va s1 ∧
      (∀ t t1 q vb seg', t.segOf shmid = some (id, seg') → seg'.pages = seg.pages →
        shmattach t q shmid = .ok (t1, some vb) → ∀ o < seg.pages.length * PGSIZE,
          ((s1.proc p).physical (va + o)).isSome ∧
            (t1.proc q).physical (vb + o) = (s1.proc p).physical (va + o)) ∧
      ∀ s2, s1.Undisturbed p s2 → ∃ s3, shmdetach s2 p va = .ok (s3, some 0) ∧
        Detachment s s2 p id s3 ∧ (s2.segtable = s1.segtable → s3.segtable = s.segtable) ∧
        shmdetach s3 p va = .ok (s3, none) := by
  obtain ⟨id, seg, row, found, slot, attachment, pid, ⟨pt, table⟩, small, records⟩ :=
    shmattach_returns attached
  have length := (segmented id seg (State.segOf_some found)).1
  refine ⟨id, seg, found, length, attachment, ?_, ?_⟩
  · intro t t1 q vb seg' found' samePages attached' o inside
    obtain ⟨id', seg1, _, found1, _, attachment', _⟩ := shmattach_returns attached'
    rw [found'] at found1
    cases found1
    have there : o / PGSIZE < seg.pages.length := Nat.div_lt_of_lt_mul (by rwa [Nat.mul_comm])
    have page := List.getElem?_eq_getElem there
    have shares' := attachment'.shares
    rw [samePages] at shares'
    rw [attachment.shares.physical page, shares'.physical page]
    exact ⟨rfl, rfl⟩
  · intro s2 same
    obtain ⟨i, only⟩ := records (detached row slot)
    have slot2 : pidslot (s2.proc p).pid = some row := by rw [same.pid, pid, slot]
    have table2 : (s2.proc p).pagetable = some pt := by rw [same.table, table]
    have only2 : ∀ j, s2.attachtable row j =
        if j = i then some { shmid := id, va := va, npages := seg.npages } else none := by
      rw [same.records row (by rw [pid, slot])]
      exact only
    rw [length] at small
    obtain ⟨pt', pages, cleared, run⟩ := shmdetach_only slot2 table2 only2 small
    have self := State.setImage_self (s2.setRecord row i none) p
      { pagetable := pt', sz := (s2.proc p).sz, kmem := s2.kmem }
    refine ⟨_, run, ⟨?_, ?_, rfl, rfl, ?_⟩, ?_, ?_⟩
    · refine (Proc.leaf_eq (congrArg Proc.pagetable self)).trans ?_
      rw [cleared, ← length, ← Proc.leaf_eq table]
      funext v
      unfold clearRange
      split
      · next inside => exact (attachment.unmapped v inside.1 inside.2).symm
      · next out => exact attachment.outside v out
    · intro q other
      exact State.setImage_other _ other
    · refine (congrArg Proc.kpages self).trans ?_
      unfold Proc.kpages
      rw [table2, Option.elim_some, Option.elim_some, pages]
      rfl
    · intro unchanged
      refine State.addRef_undo (t := s2) ?_
      rw [unchanged, attachment.counted]
    · refine shmdetach_absent row ?_ fun j => ?_
      · exact (congrArg (fun P => pidslot P.pid) self).trans slot2
      · by_cases here : j = i
        · rw [here]
          exact State.setRecord_self s2 row i none
        · refine (State.setRecord_other s2 none fun both => here both.2).trans ?_
          rw [only2 j, if_neg here]

/-- The first process attaches the segment and detaches it. -/
theorem forked_attach_detach :
    ∃ s1 va s3, shmattach forked.state 0 0 = .ok (s1, some va) ∧
      shmdetach s1 0 va = .ok (s3, some 0) ∧
      (s3.proc 0).leaf = (forked.state.proc 0).leaf ∧ shmdetach s3 0 va = .ok (s3, none) := by
  have shown : (shmattach forked.state 0 0).toOption.map (·.2.isSome) = some true := by
    decide +kernel
  obtain ⟨⟨s1, value⟩, returned, there⟩ := Option.map_eq_some_iff.mp shown
  obtain ⟨va, rfl⟩ := Option.isSome_iff_exists.mp there
  have attached := Outcome.ok_of_toOption returned
  obtain ⟨_, _, _, _, _, _, undo⟩ := shmattach_shmdetach
    (segmented_of_reachable (.init forked_start)) (fun row _ i => forked_start.detached row i)
    attached
  obtain ⟨s3, run, detachment, _, again⟩ := undo s1 ⟨rfl, rfl, fun _ _ => rfl⟩
  exact ⟨s1, va, s3, attached, run, detachment.restored, again⟩

end Xv6.Vm
