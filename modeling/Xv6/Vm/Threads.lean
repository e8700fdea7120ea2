import Xv6.Vm.Freed

/-!
# The address space of a process and its threads

`kclone` gives a thread a page table of its own, filled with the entries that the caller's
page table has at that moment, and a copy of the caller's size. From then on `sbrk` and page
faults change the page table and the size of the process that makes them and of no other.
So a process and its threads are in one address space only as long as there is nothing to
change: every page below the size is mapped when `kclone` is called, and none of them
calls `sbrk` or `exec` while there are threads.
-/

namespace Xv6.Vm

open Outcome
open State (image_some set_proc_other set_proc_self)

/-! ## One address space -/

/-- Slot `q` has a thread that has not exited. -/
def State.LiveThread (s : State) (q : Slot) : Prop :=
  (s.proc q).isThread = true ∧ (s.proc q).state.live = true
  deriving Decidable

/-- `q` is a live thread of `p`. -/
def State.Thread (s : State) (p q : Slot) : Prop :=
  s.LiveThread q ∧ (s.proc q).parent = some p
  deriving Decidable

/-- The physical page of a user address. -/
def Proc.translate (P : Proc) (va : Nat) : Option Nat := (P.leaf (va / PGSIZE)).map Pte.ppn

/-- The byte that a load by process `p` reads, `none` if the page table does not allow it. -/
def State.load (s : State) (p : Slot) (va : Nat) : Option UInt8 :=
  match (s.proc p).leaf (va / PGSIZE) with
  | none => none
  | some pte =>
    if pte.perm.u ∧ pte.perm.r then
      some (s.kmem.mem pte.ppn ⟨va % PGSIZE, Nat.mod_lt _ (by decide)⟩)
    else none

/-- A store of one byte by process `p`. No page can be written that cannot be read. -/
def State.store (s : State) (p : Slot) (va : Nat) (byte : UInt8) : Option State :=
  match (s.proc p).leaf (va / PGSIZE) with
  | none => none
  | some pte =>
    if pte.perm.u ∧ pte.perm.r ∧ pte.perm.w then
      some { s with kmem := s.kmem.store pte.ppn (va % PGSIZE) [byte] }
    else none

/-- Process `p` accesses `va`, and if the page is not there, the page fault is served. -/
def State.Accesses (s : State) (p : Slot) (va : Nat) (s' : State) : Prop :=
  if ((s.proc p).leaf (va / PGSIZE)).isSome then s' = s else pageFault s p va = .ok (s', some 0)

/-- Both processes access `va`, in any order. -/
def State.BothAccess (s : State) (p q : Slot) (va : Nat) (s' : State) : Prop :=
  ∃ s1, s.Accesses p va s1 ∧ s1.Accesses q va s' ∨ s.Accesses q va s1 ∧ s1.Accesses p va s'

/-- The processes `p` and `q` are in one address space: they have the same addresses, and
at each of them, once both have accessed it, the same page, in which each of them
reads what the other has stored. -/
structure State.OneSpace (s : State) (p q : Slot) : Prop where
  size : ∀ va, va < (s.proc p).sz ↔ va < (s.proc q).sz
  page : ∀ va s', va < (s.proc p).sz → s.BothAccess p q va s' →
    ∃ page, (s'.proc p).translate va = some page ∧ (s'.proc q).translate va = some page
  read : ∀ va s' s'' byte, va < (s.proc p).sz → s.BothAccess p q va s' →
    (s'.store p va byte = some s'' → s''.load q va = some byte) ∧
      (s'.store q va byte = some s'' → s''.load p va = some byte)

/-- Every process is in one address space with each of its live threads. -/
def ThreadsShare (m : Machine) : Prop :=
  ∀ p q, m.state.Thread p q → m.state.OneSpace p q

theorem State.accesses_mapped (s' : State) (mapped : ((s.proc p).leaf (va / PGSIZE)).isSome) :
    s.Accesses p va s' ↔ s' = s := by
  unfold State.Accesses
  rw [if_pos mapped]

/-- The call is `clone`, `sbrk` or a page fault. -/
def Call.isThreadRun : Call → Bool
  | .clone _ _ _ | .sbrk _ _ | .fault _ => true
  | _ => false

/-- A process makes a thread, and then each of the two gets a page from `sbrk`. -/
def growBoth : List (Slot × Call) :=
  [(1, .clone 0 0 0), (1, .sbrk 4096 true), (2, .sbrk 4096 true)]

/-- The two have the same size again, and different pages at its end. -/
theorem threads_grow_apart :
    ¬ ∀ m, system.ReachableWhen (fun _ l => l.1.2.isThreadRun = true) m → ThreadsShare m := by
  intro always
  obtain ⟨m, reach, thread, size, leaf1, leaf2⟩ : ∃ m,
      system.ReachableWhen (fun _ l => l.1.2.isThreadRun = true) m ∧ m.state.Thread 1 2 ∧
      (m.state.proc 1).sz = 16384 ∧
      (m.state.proc 1).leaf 3 = some ⟨0x80119, { r := true, w := true, u := true }⟩ ∧
      (m.state.proc 2).leaf 3 = some ⟨0x8011A, { r := true, w := true, u := true }⟩ :=
    Lts.exists_of_run forked_start growBoth (by decide +kernel)
  have space := always m reach 1 2 thread
  have access1 : m.state.Accesses 1 12288 m.state :=
    (State.accesses_mapped _ (by rw [show 12288 / PGSIZE = 3 from rfl, leaf1]; rfl)).mpr rfl
  have access2 : m.state.Accesses 2 12288 m.state :=
    (State.accesses_mapped _ (by rw [show 12288 / PGSIZE = 3 from rfl, leaf2]; rfl)).mpr rfl
  obtain ⟨page, page1, page2⟩ := space.page 12288 _ (by rw [size]; decide)
    ⟨_, .inl ⟨access1, access2⟩⟩
  unfold Proc.translate at page1 page2
  rw [show 12288 / PGSIZE = 3 from rfl] at page1 page2
  rw [leaf1] at page1
  rw [leaf2] at page2
  rw [← page1] at page2
  exact absurd page2 (by decide)

/-! ## Page tables with the same entries -/

/-- The thread `Q` has what the process `P` has: its size and, at every page below it, the
same entry. -/
structure Proc.Mirrors (P Q : Proc) : Prop where
  size : Q.sz = P.sz
  leaf : ∀ v < npg P.sz, Q.leaf v = P.leaf v
  mapped : ∀ v < npg P.sz, (P.leaf v).isSome

/-- Every live thread has a live parent and mirrors it. -/
def State.Mirrored (s : State) : Prop :=
  ∀ q, s.LiveThread q → ∃ p, (s.proc q).parent = some p ∧ (s.proc p).state.live = true ∧
    (s.proc p).Mirrors (s.proc q)

section Space

variable {s s' : State} {p q : Slot}

theorem State.load_store (same : (s.proc q).leaf (va / PGSIZE) = (s.proc p).leaf (va / PGSIZE))
    (stored : s.store p va byte = some s') : s'.load q va = some byte := by
  unfold State.store at stored
  split at stored
  · cases stored
  rename_i pte mapped
  split at stored
  · next allowed =>
    cases stored
    unfold State.load
    rw [same, mapped]
    dsimp only
    rw [if_pos ⟨allowed.1, allowed.2.1⟩]
    unfold Kmem.store
    dsimp only
    rw [Function.update_self, if_pos le_rfl, Nat.sub_self]
    rfl
  · cases stored

theorem Proc.Mirrors.oneSpace (mirrors : (s.proc p).Mirrors (s.proc q)) : s.OneSpace p q := by
  have page {va : Nat} (inside : va < (s.proc p).sz) :
      ∃ pte, (s.proc p).leaf (va / PGSIZE) = some pte ∧
        (s.proc q).leaf (va / PGSIZE) = some pte := by
    have low := div_lt_npg inside
    obtain ⟨pte, mapped⟩ := Option.isSome_iff_exists.mp (mirrors.mapped _ low)
    exact ⟨pte, mapped, (mirrors.leaf _ low).trans mapped⟩
  -- there is nothing to fault in
  have accessed {va : Nat} {s' : State} (inside : va < (s.proc p).sz)
      (both : s.BothAccess p q va s') : s' = s := by
    obtain ⟨pte, ofP, ofQ⟩ := page inside
    have mappedP := State.accesses_mapped s' (by rw [ofP]; rfl)
    have mappedQ := State.accesses_mapped s' (by rw [ofQ]; rfl)
    rcases both with ⟨s1, ⟨first, second⟩ | ⟨first, second⟩⟩
    · obtain rfl := (State.accesses_mapped s1 (by rw [ofP]; rfl)).mp first
      exact mappedQ.mp second
    · obtain rfl := (State.accesses_mapped s1 (by rw [ofQ]; rfl)).mp first
      exact mappedP.mp second
  constructor
  · intro va
    rw [mirrors.size]
  · intro va s' inside both
    obtain rfl := accessed inside both
    obtain ⟨pte, ofP, ofQ⟩ := page inside
    unfold Proc.translate
    exact ⟨pte.ppn, by rw [ofP]; rfl, by rw [ofQ]; rfl⟩
  · intro va s' s'' byte inside both
    obtain rfl := accessed inside both
    obtain ⟨pte, ofP, ofQ⟩ := page inside
    exact ⟨State.load_store (ofQ.trans ofP.symm), State.load_store (ofP.trans ofQ.symm)⟩

theorem State.Mirrored.threadsShare (mirrored : m.state.Mirrored) : ThreadsShare m := by
  intro p q ⟨thread, parent⟩
  obtain ⟨p', parent', _, mirrors⟩ := mirrored q thread
  rw [parent] at parent'
  cases parent'
  exact mirrors.oneSpace

end Space

/-! ## What a call does to each process -/

/-- Process `q` is a thread or has a live one. -/
def State.Shares (s : State) (q : Slot) : Prop :=
  (s.proc q).isThread = true ∨ ∃ r, s.Thread q r
  deriving Decidable

/-- The process is as before, up to the parent of one that is not a live thread. -/
structure Proc.Kept (P P' : Proc) : Prop where
  thread : P'.isThread = P.isThread
  live : P'.state.live = P.state.live
  parent : P.isThread = true → P.state.live = true → P'.parent = P.parent
  size : P'.sz = P.sz
  leaf : P'.leaf = P.leaf

theorem Proc.Kept.refl (P : Proc) : P.Kept P := ⟨rfl, rfl, fun _ _ => rfl, rfl, rfl⟩

/-- Process `q` is kept, or it had no live threads and, if it is a live thread now, it mirrors
its parent. -/
def State.SlotKept (s s' : State) (q : Slot) : Prop :=
  (s.proc q).Kept (s'.proc q) ∨
    (∀ r, ¬ s.Thread q r) ∧ (s'.LiveThread q → ∃ p, (s'.proc q).parent = some p ∧
      (s'.proc p).state.live = true ∧ (s'.proc p).Mirrors (s'.proc q))

section Frame

variable {s s' : State} {p q : Slot}

theorem State.SlotKept.same (same : s'.proc q = s.proc q) : s.SlotKept s' q := by
  refine .inl ?_
  rw [same]
  exact .refl _

theorem State.SlotKept.alone (none : ∀ r, ¬ s.Thread q r) (gone : ¬ s'.LiveThread q) :
    s.SlotKept s' q :=
  .inr ⟨none, fun thread => absurd thread gone⟩

theorem Proc.Mirrors.kept {P P' Q Q' : Proc} (mirrors : P.Mirrors Q) (keptP : P.Kept P')
    (keptQ : Q.Kept Q') : P'.Mirrors Q' := by
  constructor
  · rw [keptQ.size, keptP.size]
    exact mirrors.size
  · rw [keptQ.leaf, keptP.leaf, keptP.size]
    exact mirrors.leaf
  · rw [keptP.leaf, keptP.size]
    exact mirrors.mapped

/-- The step rule of `Mirrored`: it is enough to look at each process by itself. -/
theorem State.Mirrored.step (mirrored : s.Mirrored) (slots : ∀ q, s.SlotKept s' q) :
    s'.Mirrored := by
  intro q thread'
  rcases slots q with kept | ⟨_, made⟩
  · have thread : s.LiveThread q := ⟨kept.thread ▸ thread'.1, kept.live ▸ thread'.2⟩
    obtain ⟨p, parent, live, mirrors⟩ := mirrored q thread
    rcases slots p with keptP | ⟨none, _⟩
    · exact ⟨p, (kept.parent thread.1 thread.2).trans parent, keptP.live.trans live,
        mirrors.kept keptP kept⟩
    · exact absurd ⟨thread, parent⟩ (none q)
  · exact made thread'

theorem State.Mirrored.not_thread (mirrored : s.Mirrored) (gone : (s.proc p).state.live = false)
    (r : Slot) : ¬ s.Thread p r := by
  intro ⟨thread, parent⟩
  obtain ⟨p', parent', live, _⟩ := mirrored r thread
  rw [parent] at parent'
  cases parent'
  rw [gone] at live
  cases live

/-- Where an address space is shared, there is nothing to fault in. -/
theorem State.Mirrored.mapped (mirrored : s.Mirrored) (live : (s.proc p).state.live = true)
    (shares : s.Shares p) (low : v < npg (s.proc p).sz) : ((s.proc p).leaf v).isSome := by
  rcases shares with thread | ⟨r, thread, parent⟩
  · obtain ⟨p', _, _, mirrors⟩ := mirrored p ⟨thread, live⟩
    rw [mirrors.size] at low
    rw [mirrors.leaf v low]
    exact mirrors.mapped v low
  · obtain ⟨p', parent', _, mirrors⟩ := mirrored r thread
    rw [parent] at parent'
    cases parent'
    exact mirrors.mapped v low

theorem State.SlotKept.image (image : Image)
    (changed : s'.proc p = { s.proc p with pagetable := some image.pagetable, sz := image.sz })
    (own : s.Shares p → image.sz = (s.proc p).sz ∧ image.pagetable.lookup = (s.proc p).leaf) :
    s.SlotKept s' p := by
  by_cases shares : s.Shares p
  · obtain ⟨size, leaf⟩ := own shares
    refine .inl ?_
    rw [changed]
    exact ⟨rfl, rfl, fun _ _ => rfl, size, leaf⟩
  · refine .alone (fun r thread => shares (.inr ⟨r, thread⟩)) fun thread => shares (.inl ?_)
    have still := thread.1
    rw [changed] at still
    exact still

theorem State.SlotKept.setImage (image : Image) (same : s'.proc = (s.setImage p image).proc)
    (own : s.Shares p → image.sz = (s.proc p).sz ∧ image.pagetable.lookup = (s.proc p).leaf)
    (q : Slot) : s.SlotKept s' q := by
  by_cases other : q = p
  · rw [other]
    refine .image image ?_ own
    rw [same, State.setImage, set_proc_self]
  · refine .same ?_
    rw [same, State.setImage, set_proc_other _ _ _ other]

end Frame

/-- What a call needs for threads to stay in the address space of their parent: `clone` that
there is nothing left to fault in; `sbrk`, `exec`, `shmattach` and `shmdetach` that the caller
shares its address space with no one; `exit` and a page fault that the caller has no live
threads. -/
def State.KeepsSpace (s : State) (p : Slot) : Call → Prop
  | .clone _ _ _ => ∀ v < npg (s.proc p).sz, ((s.proc p).leaf v).isSome
  | .sbrk n _ => n = 0 ∨ ¬ s.Shares p
  | .exec _ _ | .shmattach _ | .shmdetach _ => ¬ s.Shares p
  | .exit _ | .fault _ => ∀ r, ¬ s.Thread p r
  | .fork | .wait _ | .waitx _ | .join | .kill _ | .shmget _ _ => True

instance (s : State) (p : Slot) : ∀ c, Decidable (s.KeepsSpace p c)
  | .clone _ _ _ => inferInstanceAs (Decidable (∀ _ < _, Option.isSome _))
  | .sbrk _ _ => inferInstanceAs (Decidable (_ ∨ _))
  | .exec _ _ | .shmattach _ | .shmdetach _ => inferInstanceAs (Decidable (¬ s.Shares p))
  | .exit _ | .fault _ => inferInstanceAs (Decidable (∀ r, ¬ s.Thread p r))
  | .fork | .wait _ | .waitx _ | .join | .kill _ | .shmget _ _ => .isTrue trivial

section Calls

variable {s s1 : State} {p : Slot}

/-- `kfork` and `kclone` change one process structure that is not in use. A new thread mirrors
its parent, if every page of the parent was mapped. -/
theorem Spawns.slots (effect : Spawns regs thread s p s1 value) (mirrored : s.Mirrored)
    (live : (s.proc p).state.live = true)
    (mapped : thread = true → ∀ v < npg (s.proc p).sz, ((s.proc p).leaf v).isSome) (q : Slot) :
    s.SlotKept s1 q := by
  cases effect with
  | full => exact .same rfl
  | @undone np k found =>
    have was := State.unusedSlot_state found
    by_cases here : q = np
    · subst here
      refine .alone (mirrored.not_thread (by rw [was]; rfl)) fun isThread => ?_
      have isLive := isThread.2
      rw [State.enter, set_proc_self] at isLive
      cases isLive
    · exact .same (set_proc_other _ _ _ here)
  | @made np old new frame page k found table _ made =>
    have was := State.unusedSlot_state found
    have other : p ≠ np := by
      rintro rfl
      rw [was] at live
      cases live
    by_cases here : q = np
    · subst here
      refine .inr ⟨mirrored.not_thread (by rw [was]; rfl), fun isThread => ⟨p, ?_⟩⟩
      have isTrue := isThread.1
      rw [State.enter, set_proc_self] at isTrue ⊢
      subst isTrue
      rw [set_proc_other _ _ _ other]
      refine ⟨rfl, live, rfl, fun v low => ?_, mapped rfl⟩
      rw [Proc.leaf_eq table, Proc.leaf_eq rfl]
      exact (made.filled v).trans (if_pos low)
    · exact .same (set_proc_other _ _ _ here)

theorem State.exited_slots (others : ∀ q, q ≠ p → s1.proc q = s.proc q)
    (inUse : (s1.proc p).state ≠ .unused) (none : ∀ r, ¬ s.Thread p r) (status : Int) (q : Slot) :
    s.SlotKept (s1.exited p status) q := by
  have state := s1.exited_state p q status
  by_cases self : q = p
  · refine .alone (self ▸ none) fun thread => ?_
    have live := thread.2
    rw [state, if_pos self] at live
    cases live
  · have same := State.exited_same inUse status q
    have parent := s1.exited_parent p q status
    have leaf := same.leaf
    rw [if_neg self] at state
    rw [others q self] at same state parent leaf
    refine .inl ⟨same.thread, by rw [state], fun thread live => ?_, same.size, leaf⟩
    rw [parent, if_neg fun child => none q ⟨⟨thread, live⟩, child⟩]

theorem Waits.slots (effect : Waits threads addr s p s1 value) (mirrored : s.Mirrored)
    (live : (s.proc p).state.live = true) (q : Slot) : s.SlotKept s1 q := by
  have own {image image' : Image} (memory : s.image p = some image)
      (reported : Reported addr image image') (shares : s.Shares p) :
      image'.sz = (s.proc p).sz ∧ image'.pagetable.lookup = (s.proc p).leaf := by
    obtain ⟨table, size, _⟩ := image_some memory
    refine ⟨reported.1.sz.trans size.symm, ?_⟩
    rw [(reported.2 fun _ v low _ _ => ?_).1, Proc.leaf_eq table]
    rw [← size] at low
    have there := mirrored.mapped live shares low
    rwa [Proc.leaf_eq table] at there
  cases effect with
  | nothing => exact .same rfl
  | failed memory reported => exact .setImage _ rfl (own memory reported) q
  | @reaped child image image' k found other memory reported =>
    by_cases here : q = child
    · subst here
      refine .alone (mirrored.not_thread (by rw [State.zombieChild_state found]; rfl))
        fun thread => ?_
      have isLive := thread.2
      rw [set_proc_self] at isLive
      cases isLive
    by_cases self : q = p
    · subst self
      refine .image image' ?_ (own memory reported)
      rw [set_proc_other _ _ _ here, State.setImage_self]
    · refine .same ?_
      rw [set_proc_other _ _ _ here, State.setImage_other _ self]

theorem Breaks.zero_same (effect : Breaks 0 eager image image' ok) :
    image'.sz = image.sz ∧ image'.pagetable = image.pagetable := by
  cases effect with
  | refused | zero | lazily => exact ⟨rfl, rfl⟩
  | full _ positive | grown _ positive => exact absurd positive (Int.lt_irrefl 0)
  | shrunk negative => exact absurd negative (Int.lt_irrefl 0)

theorem Faults.slots (effect : Faults va s p s1 value) (mirrored : s.Mirrored)
    (live : (s.proc p).state.live = true) (none : ∀ r, ¬ s.Thread p r) (q : Slot) :
    s.SlotKept s1 q := by
  cases effect with
  | served memory _ inside unmapped =>
    refine .setImage _ rfl (fun shares => ?_) q
    obtain ⟨table, size, _⟩ := image_some memory
    rw [← size] at inside
    have there := mirrored.mapped live shares (div_lt_npg inside)
    rw [Proc.leaf_eq table, unmapped] at there
    cases there
  | killed =>
    refine State.exited_slots (fun r other => ?_) ?_ none (-1) q
    · rw [State.doom, set_proc_other _ _ _ other, State.setImage_other _ other]
    · rw [State.doom, set_proc_self, State.setImage_self]
      exact inUse_of_live live

/-- **What one call does to the processes**, if it respects the condition. -/
theorem Effect.slots (effect : Effect s p c s1 value) (mirrored : s.Mirrored)
    (live : (s.proc p).state.live = true) (keeps : s.KeepsSpace p c) (q : Slot) :
    s.SlotKept s1 q := by
  cases c with
  | fork => exact Spawns.slots effect mirrored live nofun q
  | clone fn arg stack => exact Spawns.slots effect mirrored live (fun _ => keeps) q
  | exit status =>
    rw [effect.1]
    exact State.exited_slots (fun _ _ => rfl) (inUse_of_live live) keeps status q
  | wait addr | waitx addr | join => exact Waits.slots effect mirrored live q
  | exec file argv =>
    obtain ⟨_, _⟩ := effect
    exact .setImage _ rfl (fun shares => absurd shares keeps) q
  | sbrk n eager =>
    obtain ⟨memory, breaks⟩ := effect
    refine .setImage _ rfl (fun shares => ?_) q
    rcases keeps with rfl | own
    · obtain ⟨table, size, _⟩ := image_some memory
      obtain ⟨sameSize, sameTable⟩ := breaks.zero_same
      rw [sameSize, sameTable, size, Proc.leaf_eq table]
      exact ⟨rfl, rfl⟩
    · exact absurd shares own
  | kill pid =>
    cases effect with
    | absent => exact .same rfl
    | found r =>
      by_cases here : q = r
      · subst here
        refine .inl ?_
        rw [set_proc_self]
        refine ⟨rfl, ?_, fun _ _ => rfl, rfl, rfl⟩
        unfold Xv6.Proc.kill
        split
        · next asleep =>
          rw [asleep]
          rfl
        · rfl
      · exact .same (set_proc_other _ _ _ here)
  | shmget key size =>
    cases effect with
    | same | failed | made => exact .same rfl
  | shmattach shmid =>
    cases effect with
    | refused => exact .same rfl
    | undone => exact .setImage _ rfl (fun shares => absurd shares keeps) q
    | @attached id seg row image pt k =>
      refine .setImage { image with pagetable := pt, kmem := k } ?_
        (fun shares => absurd shares keeps) q
      exact State.record_proc _ _ _
  | shmdetach addr =>
    cases effect with
    | absent => exact .same rfl
    | detached => exact .setImage _ rfl (fun shares => absurd shares keeps) q
  | fault va => exact Faults.slots effect mirrored live keeps q

end Calls

def KeepsSpace (m : Machine) (l : Event) : Prop :=
  m.state.KeepsSpace l.1.1 (m.state.entered l.1.1 l.1.2)

instance (m : Machine) (l : Event) : Decidable (KeepsSpace m l) :=
  inferInstanceAs (Decidable (State.KeepsSpace _ _ _))

theorem mirrored_of_keepsSpace (reach : system.ReachableWhen KeepsSpace m) : m.state.Mirrored := by
  suffices all : m.state.Mirrored ∧ m.state.Blank ∧ m.state.Sized from all.1
  refine reach.invariant (P := fun m => m.state.Mirrored ∧ m.state.Blank ∧ m.state.Sized) ?_ ?_
  · intro m start
    refine ⟨fun q thread => ?_, start.inv.blank, start.inv.sized⟩
    have isThread := thread.1
    rw [start.inv.threads trivial q] at isThread
    cases isThread
  intro m ⟨⟨p, c⟩, value⟩ m' ⟨mirrored, blank, sized⟩ keeps step
  obtain ⟨live, ⟨_, effect⟩ | ⟨same, _⟩⟩ := exec_effect step blank sized
  · exact ⟨mirrored.step (effect.slots mirrored live keeps), effect.blank blank sized live⟩
  · rw [same]
    exact ⟨mirrored, blank, sized⟩

/-- **A process and its live threads are in one address space**, in every run in which no
process makes a thread while pages are left to fault in, or changes an address space
that it shares. -/
theorem threadsShare_of_keepsSpace {m : Machine} (reach : system.ReachableWhen KeepsSpace m) :
    ThreadsShare m :=
  (mirrored_of_keepsSpace reach).threadsShare

/-- A process grows by a page, makes a thread, and the thread makes another one. -/
theorem threadsShare_cloned : ∃ m, system.ReachableWhen KeepsSpace m ∧
    m.state.Thread 1 2 ∧ m.state.Thread 2 3 ∧ ThreadsShare m := by
  obtain ⟨m, reach, first, second⟩ : ∃ m, system.ReachableWhen KeepsSpace m ∧
      m.state.Thread 1 2 ∧ m.state.Thread 2 3 :=
    Lts.exists_of_run forked_start [(1, .sbrk 4096 true), (1, .clone 0 0 0), (2, .clone 0 0 0)]
      (by decide +kernel)
  exact ⟨m, reach, first, second, threadsShare_of_keepsSpace reach⟩

end Xv6.Vm
