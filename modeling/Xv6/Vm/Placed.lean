import Xv6.Vm.Shared

/-!
# Where segments are attached

`shmattach` puts a segment one page above the heap, wherever the others are, and `sbrk`
does not look where they are: a second `shmattach` and a growing `sbrk` run into a segment
that is attached, and panic with "mappages: remap". As long as both are called only
where nothing is attached, every attached range lies above the heap and nothing is mapped
twice.
-/

namespace Xv6.Vm

open Outcome Ownership

/-- Every attached page lies above the heap. -/
def State.Placed (s : State) : Prop :=
  ∀ q v, s.Attached (s.proc q).pid v → npg (s.proc q).sz ≤ v

/-- What a `shmattach` returns from here is a range that is not mapped here. -/
def AttachesUnmapped (m : Machine) : Prop :=
  ∀ p shmid m' a, exec m (p, .shmattach shmid) = some (m', some a) →
    ∀ id seg, m.state.segOf shmid = some (id, seg) →
      ∀ v, a / PGSIZE ≤ v → v < a / PGSIZE + seg.npages.toNat → (m.state.proc p).leaf v = none

/-- No collision of attached ranges: not in the step that has led here, not with a heap, and
not in an attachment from here. -/
structure NoCollision (m : Machine) : Prop where
  noRemap : m.panicked ≠ some .remap
  placed : m.state.Placed
  unmapped : AttachesUnmapped m

/-- The call attaches, detaches or grows. -/
def Call.isAttachRun : Call → Bool
  | .shmattach _ | .shmdetach _ | .sbrk _ _ => true
  | _ => false

/-- A process attaches a segment twice. -/
def attachTwice : List (Slot × Call) := [(1, .shmattach 0), (1, .shmattach 0)]

theorem remap_reached :
    ¬ ∀ m, system.ReachableWhen (fun _ l => l.1.2.isAttachRun = true) m → NoCollision m := by
  intro always
  obtain ⟨m, reach, panicked⟩ : ∃ m,
      system.ReachableWhen (fun _ l => l.1.2.isAttachRun = true) m ∧ m.panicked = some .remap :=
    Lts.exists_of_run forked_start attachTwice (by decide +kernel)
  exact (always m reach).noRemap panicked

/-! ## Calls that keep clear of what is attached -/

theorem State.attached_iff {s : State} : s.Attached pid v ↔
    ∃ row i, pidslot pid = some row ∧ (s.attachtable row i).any (fun e => decide (e.Covers v)) := by
  refine ⟨?_, ?_⟩
  · intro ⟨row, i, entry, slot, present, covers⟩
    refine ⟨row, i, slot, ?_⟩
    rw [present]
    exact decide_eq_true covers
  · intro ⟨row, i, slot, covered⟩
    obtain ⟨entry, present, covers⟩ := (Option.any_eq_true _ _).mp covered
    exact ⟨row, i, entry, slot, present, of_decide_eq_true covers⟩

instance (s : State) (pid v : Nat) : Decidable (s.Attached pid v) :=
  decidable_of_iff' _ State.attached_iff

/-- A `shmattach` finds nothing attached where it puts the segment, and a free record; a growing
`sbrk` reaches no attached page. Of the other calls only `shmdetach`, `shmget` and page
faults are made. -/
def State.KeepsClear (s : State) (p : Slot) : Call → Prop
  | .shmattach shmid =>
    (∀ seg ∈ (s.segOf shmid).map (·.2), ∀ k < seg.npages.toNat,
      ¬ s.Attached (s.proc p).pid (attachVpn (s.proc p).sz + k)) ∧
    s.HasRecord p (.shmattach shmid)
  | .sbrk n _ =>
    ∀ v < npg ((s.proc p).sz + n.toNat), npg (s.proc p).sz ≤ v → ¬ s.Attached (s.proc p).pid v
  | .shmdetach _ | .shmget _ _ | .fault _ => True
  | _ => False

instance (s : State) (p : Slot) : ∀ c, Decidable (s.KeepsClear p c)
  | .shmattach _ => inferInstanceAs (Decidable ((∀ _ ∈ _, ∀ _ < _, ¬ _) ∧ State.HasRecord _ _ _))
  | .sbrk _ _ => inferInstanceAs (Decidable (∀ _ < _, _ → ¬ _))
  | .shmdetach _ | .shmget _ _ | .fault _ => .isTrue trivial
  | .exec _ _ | .wait _ | .waitx _ | .fork | .clone _ _ _ | .exit _ | .join | .kill _ => .isFalse id

section Invariant

variable {s s' : State} {p : Slot}

theorem State.Placed.frame (placed : s.Placed)
    (sizes : ∀ q, (s'.proc q).sz = (s.proc q).sz ∧ (s'.proc q).pid = (s.proc q).pid)
    (records : ∀ row i entry, s'.attachtable row i = some entry →
      s.attachtable row i = some entry) : s'.Placed := by
  intro q v ⟨row, i, entry, slot, present, covers⟩
  rw [(sizes q).1]
  rw [(sizes q).2] at slot
  exact placed q v ⟨row, i, entry, slot, records row i entry present, covers⟩

theorem State.Placed.attach (placed : s.Placed) (inv : Inv True True s)
    (inUse : (s.proc p).state ≠ .unused)
    (sizes : ∀ q, (s'.proc q).sz = (s.proc q).sz ∧ (s'.proc q).pid = (s.proc q).pid)
    (records : ∀ row i entry, s'.attachtable row i = some entry →
      s.attachtable row i = some entry ∨
        pidslot (s.proc p).pid = some row ∧ entry.va = attachVpn (s.proc p).sz * PGSIZE) :
    s'.Placed := by
  intro q v ⟨row, i, entry, slot, present, covers⟩
  rw [(sizes q).1]
  rw [(sizes q).2] at slot
  rcases records row i entry present with old | ⟨mine, va⟩
  · exact placed q v ⟨row, i, entry, slot, old, covers⟩
  by_cases used : (s.proc q).state = .unused
  · rw [(inv.unused used).2.2.1, npg_zero]
    exact Nat.zero_le v
  have same := inv.pid_inj used inUse ((pidslot_val slot).trans (pidslot_val mine).symm)
  have begins := covers.1
  rw [va, Nat.mul_div_cancel _ (by decide)] at begins
  rw [same]
  unfold attachVpn at begins
  omega

theorem State.Placed.grow (placed : s.Placed) (clear : s.KeepsClear p (.sbrk n eager))
    {image : Image} (size : image.sz ≤ (s.proc p).sz + n.toNat) : (s.setImage p image).Placed := by
  intro q v attached
  by_cases same : q = p
  · subst same
    rw [State.setImage, State.set_proc_self] at attached ⊢
    apply Nat.le_of_not_lt
    intro low
    have reached : v < npg ((s.proc q).sz + n.toNat) := Nat.lt_of_lt_of_le low (npg_mono size)
    exact clear v reached (placed q v attached) attached
  · rw [State.setImage, State.set_proc_other _ _ _ same] at attached ⊢
    exact placed q v attached

theorem Inv.careful_of_keepsClear (inv : Inv True True s)
    (clear : s.KeepsClear p c ∨ ∃ n, c = .exit n) :
    c.isClone = false ∧ s.GrowsClear p c ∧ s.HasRecord p c := by
  rcases clear with clear | ⟨status, rfl⟩
  · have grows : s.GrowsClear p c := by
      apply inv.growsClear
      rintro n eager rfl
      exact clear
    cases c with
    | shmattach shmid => exact ⟨rfl, grows, clear.2⟩
    | shmdetach addr | shmget key size | sbrk n eager | fault va => exact ⟨rfl, grows, trivial⟩
    | _ => exact clear.elim
  · exact ⟨rfl, trivial, trivial⟩

theorem State.setImage_sizes (image' : Image) {image : Image} (memory : s.image p = some image)
    (size : image'.sz = image.sz) (q : Slot) :
    ((s.setImage p image').proc q).sz = (s.proc q).sz ∧
      ((s.setImage p image').proc q).pid = (s.proc q).pid := by
  by_cases here : q = p
  · rw [here, State.setImage_self]
    exact ⟨size.trans (State.image_some memory).2.1.symm, rfl⟩
  · rw [State.setImage_other _ here]
    exact ⟨rfl, rfl⟩

theorem State.Placed.step (placed : s.Placed) (inv : Inv True True s)
    (live : (s.proc p).state.live = true) (clear : s.KeepsClear p c ∨ ∃ n, c = .exit n)
    (effect : Effect s p c s' value) : s'.Placed := by
  have inUse := inUse_of_live live
  rcases clear with clear | ⟨status, rfl⟩
  · cases c with
    | shmattach shmid =>
      cases effect with
      | refused => exact placed
      | undone place =>
        exact placed.frame (State.setImage_sizes _ place.memory rfl) fun _ _ _ present => present
      | @attached id seg row image pt k place =>
        refine placed.attach inv inUse (fun q => ?_) fun row i entry present => ?_
        · rw [State.record_proc]
          exact State.setImage_sizes { image with pagetable := pt, kmem := k } place.memory rfl q
        · refine (State.of_record present).imp_right fun ⟨sameRow, same⟩ => ?_
          rw [sameRow, same, (State.image_some place.memory).2.1]
          exact ⟨place.slot, rfl⟩
    | shmdetach addr =>
      cases effect with
      | absent => exact placed
      | @detached row i entry image pt _ _ _ memory =>
        refine placed.frame (State.setImage_sizes _ memory rfl) fun row' i' entry' there => ?_
        exact (State.of_setRecord there).resolve_right fun new => by cases new.2.2
    | shmget key size =>
      cases effect with
      | same | failed | made =>
        exact placed.frame (fun _ => ⟨rfl, rfl⟩) fun _ _ _ present => present
    | sbrk n eager =>
      obtain ⟨memory, breaks⟩ := effect
      refine placed.grow clear ?_
      rw [(State.image_some memory).2.1]
      exact breaks.size_le
    | fault va =>
      cases effect with
      | served memory touched =>
        exact placed.frame (State.setImage_sizes _ memory touched.sz) fun _ _ _ present => present
      | @killed image image' memory touched =>
        refine placed.frame (fun q => ?_) fun _ _ _ present => present
        have same := State.killed_same inUse image' q
        rw [same.size, same.pid]
        exact State.setImage_sizes _ memory touched.sz q
    | _ => exact clear.elim
  · rw [effect.1]
    refine placed.frame (fun q => ?_) fun _ _ _ present => present
    have same := State.exited_same inUse status q
    exact ⟨same.size, same.pid⟩

theorem Inv.noRemap (inv : Inv True True s) (clear : s.KeepsClear p c ∨ ∃ n, c = .exit n) :
    ¬ Panics s p c .remap := by
  rcases clear with clear | ⟨status, rfl⟩
  · cases c with
    | shmattach shmid =>
      rintro (none | ⟨id, seg, row, image, place, v, low, high, ⟨none, _⟩ | ⟨_, mapped⟩⟩)
      · cases none
      · cases none
      obtain ⟨pte, there⟩ := Option.isSome_iff_exists.mp mapped
      obtain ⟨table, size, _⟩ := State.image_some place.memory
      have small := place.small inv low high
      rw [place.length inv] at high
      rw [← size] at low high
      rw [← Proc.leaf_eq table] at there
      have attached := inv.attached_of_leaf there (by unfold attachVpn at low; omega) small
      refine clear.1 seg (by rw [place.found]; rfl) (v - attachVpn (s.proc p).sz) (by omega) ?_
      rwa [Nat.add_sub_cancel' low]
    | shmdetach addr => rintro (none | none) <;> cases none
    | shmget key size => exact nofun
    | sbrk n eager =>
      rintro (none | none | ⟨_, top, v, low, high, ⟨none, _⟩ | ⟨_, mapped⟩⟩)
      · cases none
      · cases none
      · cases none
      obtain ⟨pte, there⟩ := Option.isSome_iff_exists.mp mapped
      exact clear v high low (inv.attached_of_leaf there low (Nat.lt_of_lt_of_le high top))
    | fault va => exact fun reason => reason.2 rfl
    | _ => exact clear.elim
  · exact nofun

end Invariant

/-! ## Runs that keep clear -/

/-- The call of a step keeps clear of what is attached; a killed process exits instead. -/
def KeepsClear (m : Machine) (l : Event) : Prop :=
  m.state.KeepsClear l.1.1 l.1.2

instance (m : Machine) (l : Event) : Decidable (KeepsClear m l) :=
  inferInstanceAs (Decidable (State.KeepsClear _ _ _))

/-- A successful `shmattach` returns a range that was not mapped. -/
theorem Inv.attachesUnmapped (inv : Inv True True m.state) : AttachesUnmapped m := by
  intro p shmid m' a step id seg found v low high
  obtain ⟨_, ⟨_, effect⟩ | ⟨_, none, _⟩⟩ := exec_effect step inv.blank inv.sized
  · generalize m'.state = s' at effect
    unfold State.entered at effect
    split at effect
    · cases effect.2
    cases effect with
    | attached place walked mapped =>
      have found' := place.found
      rw [found] at found'
      cases found'
      rw [Nat.mul_div_cancel _ (by decide)] at low high
      rw [Proc.leaf_eq (State.image_some place.memory).1]
      exact (mapped.unmapped v low (by rw [place.length inv]; exact high)).2
  · cases none

theorem inv_of_keepsClear {m : Machine} (reach : system.ReachableWhen KeepsClear m) :
    Inv True True m.state ∧ m.state.Placed ∧ m.panicked ≠ some .remap := by
  refine reach.invariant (P := fun m => Inv True True m.state ∧ m.state.Placed ∧
    m.panicked ≠ some .remap) ?_ ?_
  · intro m start
    refine ⟨start.inv, ?_, ?_⟩
    · intro q v attached
      exact absurd attached (State.Detached.not_attached fun row _ => start.detached row)
    · rw [start.running]
      exact nofun
  · intro m ⟨⟨p, c⟩, value⟩ m' ⟨inv, placed, _⟩ clear step
    have live := (exec_cases step).2.1
    have entered := m.state.entered_of (P := fun c => m.state.KeepsClear p c ∨ ∃ n, c = .exit n) p
      (.inr ⟨_, rfl⟩) (.inl clear)
    obtain ⟨alone, grows, room⟩ := inv.careful_of_keepsClear entered
    refine ⟨inv.step step (fun _ => alone) (inv.freesPrivate live _) grows fun _ => room, ?_⟩
    obtain ⟨_, ⟨running, effect⟩ | ⟨same, _, e, isE, reason⟩⟩ :=
      exec_effect step inv.blank inv.sized
    · rw [running]
      exact ⟨placed.step inv live entered effect, nofun⟩
    · rw [same, isE]
      refine ⟨placed, fun isRemap => ?_⟩
      cases isRemap
      exact inv.noRemap entered reason

/-- **Attached regions never collide**, in every run in which `shmattach` is called only where
nothing is attached and a record is free, and no `sbrk` reaches an attached page. -/
theorem noCollision_of_keepsClear {m : Machine} (reach : system.ReachableWhen KeepsClear m) :
    NoCollision m := by
  obtain ⟨inv, placed, noRemap⟩ := inv_of_keepsClear reach
  exact ⟨noRemap, placed, inv.attachesUnmapped⟩

/-- A process attaches a segment, detaches it, attaches it again, grows by the page below it and
attaches it a second time. -/
theorem noCollision_simultaneous : ∃ m, system.ReachableWhen KeepsClear m ∧
    m.state.Attached (m.state.proc 1).pid 4 ∧ m.state.Attached (m.state.proc 1).pid 5 ∧
      NoCollision m := by
  obtain ⟨m, reach, first, second⟩ : ∃ m, system.ReachableWhen KeepsClear m ∧
      m.state.Attached (m.state.proc 1).pid 4 ∧ m.state.Attached (m.state.proc 1).pid 5 :=
    Lts.exists_of_run forked_start [(1, .shmattach 0), (1, .shmdetach 16384), (1, .shmattach 0),
      (1, .sbrk 4096 true), (1, .shmattach 0)] (by decide +kernel)
  exact ⟨m, reach, first, second, noCollision_of_keepsClear reach⟩

end Xv6.Vm
