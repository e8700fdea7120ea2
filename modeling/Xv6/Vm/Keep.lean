import Xv6.Vm.Inv

/-!
# The calls keep the invariant

There is one lemma for each effect of `Xv6.Vm.Effect`: from a state with the invariant the call
leads to one with the invariant. What frees user pages needs that no other process maps
them, and what extends the heap without mapping anything needs that nothing is mapped there.
-/

namespace Xv6.Vm

open Outcome Ownership
open Function
open Multiset (mem_add)

variable {L R : Prop} {s s' : State} {p np : Slot} {value : Option Nat}

/-! ## Process structures -/

/-- A process structure is emptied, and its pages are free. The heap of a process that is not a
thread is freed with it, and no other process may map it. -/
theorem Inv.free (inv : Inv L R s) (unused : P.state = .unused)
    (empty : P.Empty) (free : (k.free : Multiset Nat) = (s.proc p).pages + s.kmem.free)
    (mine : (s.proc p).isThread = false → ∀ v x, (s.proc p).heap v = some x →
      s.Maps p x ∧ ¬ s.Elsewhere p x) : Inv L R (s.set p P k) := by
  generalize isUser : (if (s.proc p).isThread then 0 else
    userPages (s.proc p).leaf (npg (s.proc p).sz)) = user
  have all : (k.free : Multiset Nat) + P.kpages + s.rest p = s.owned + user := by
    rw [free, State.owned_eq s p, Proc.pages, isUser, Proc.kpages_empty empty]
    abel
  have held {x : Nat} (mem : x ∈ user) :
      (s.proc p).isThread = false ∧ ∃ v, (s.proc p).heap v = some x := by
    cases thread : (s.proc p).isThread with
    | true =>
      rw [← isUser, thread] at mem
      exact absurd mem (Multiset.notMem_zero x)
    | false =>
      rw [← isUser, thread] at mem
      exact ⟨rfl, mem_userPages_iff.mp mem⟩
  have apart : user.Nodup ∧ Disjoint s.owned user := by
    refine ⟨?_, Multiset.disjoint_right.mpr fun mem => ?_⟩
    · rw [← isUser]
      split
      · exact Multiset.nodup_zero
      · next process =>
        refine userPages_nodup.mpr fun v w x one two => ?_
        exact inv.inj (mine (Bool.eq_false_iff.mpr process) v x one).1.1 one two
    · obtain ⟨process, v, inHeap⟩ := held mem
      exact inv.outside (mine process v _ inHeap).1
  refine inv.set ?_ ?_ (fun tracked => absurd unused tracked.1) (fun pt table => ?_)
    (fun _ => empty)
    (fun used => absurd unused used) (fun used => absurd unused used) fun _ => empty.2.2.2
  · rw [all]
    exact Multiset.nodup_add.mpr ⟨inv.nodup, apart.1, apart.2⟩
  · intro x away mem
    rw [all] at mem
    rcases mem_add.mp mem with owned | inUser
    · exact inv.elsewhere_outside away owned
    · obtain ⟨process, v, inHeap⟩ := held inUser
      exact (mine process v x inHeap).2 away
  · rw [empty.1] at table
    cases table

theorem Inv.counted (inv : Inv L R s) : Inv L R { s with nextpid := s.nextpid + 1 } :=
  { inv with pid_lt := fun inUse => Nat.lt_succ_of_lt (inv.pid_lt inUse) }

/-- The page table of a child maps its heap and the two pages of the trampoline. -/
theorem Filled.shape {segment : Nat → Prop}
    (filled : Filled thread k k' old (newLeaf trampoline trapframe) top leaf)
    (fits : top ≤ trapframeVpn) : Shape leaf top attached segment := by
  refine (Shape.new trampoline trapframe).below fits (Nat.zero_le _) fun v high => ?_
  cases thread with
  | true =>
    have same := filled v
    rwa [if_neg (by omega)] at same
  | false => exact Laid.outside filled v (by omega)

/-- A process gets an address space whose pages nobody else has. -/
theorem Inv.enter (inv : Inv L R s)
    (owned : Owned ((k.free : Multiset Nat) + P.kpages + s.rest np) P.heap (s.Elsewhere np)
      fun x => L ∧ s.Elsewhere np x)
    (shape : ∀ pt, P.pagetable = some pt →
      Shape pt.lookup (npg P.sz) (fun v => R → s.Attached P.pid v) (· ∈ s.segPages))
    (state : P.state = .runnable) (pid : P.pid = s.nextpid) (thread : L → P.isThread = false) :
    Inv L R (s.enter np P k) := by
  refine inv.counted.set owned.nodup (fun x away => owned.foreign_outside away)
    (fun _ => owned) shape (fun unused => ?_) (fun _ => ?_) (fun _ q _ inUse same => ?_) thread
  · rw [state] at unused
    cases unused
  · rw [pid]
    exact Nat.lt_succ_self _
  · exact absurd (inv.pid_lt inUse) (by rw [same, pid]; exact Nat.lt_irrefl _)

/-- A new process enters the system, or a new thread of a process in use. -/
theorem Inv.born (inv : Inv L R s) (was : (s.proc np).state = .unused)
    (alone : L → thread = false) (tracked : (s.proc p).Tracked)
    (table : (s.proc p).pagetable = some old) (made : Made s p thread old page new k)
    (free : k'.free = k.free) (frame : P.trapframe = some page) (isTable : P.pagetable = some new)
    (size : P.sz = (s.proc p).sz) (isThread : P.isThread = thread) (pid : P.pid = s.nextpid)
    (state : P.state = .runnable) : Inv L R (s.enter np P k') := by
  have fits : npg (s.proc p).sz ≤ trapframeVpn := inv.sized p (by rw [table]; rfl)
  have heap_eq : P.heap = heap new.lookup (npg (s.proc p).sz) := by
    rw [Proc.heap_eq isTable, size]
  have samePool : (k'.free : Multiset Nat) + P.kpages + s.rest np =
      pool k' new ({page} + s.rest np) := by
    unfold Proc.kpages pool
    rw [frame, isTable, Option.elim_some, Option.elim_some]
    abel
  have away {x : Nat} (elsewhere : s.Elsewhere np x) : x ∉ s.owned :=
    inv.elsewhere_outside elsewhere
  -- nothing has come or gone
  have sum : pool k' new ({page} + s.rest np) +
      (if thread then 0 else userPages new.lookup (npg (s.proc p).sz)) = s.owned := by
    rw [State.owned_eq s np, Proc.kpages_empty (inv.unused was), ← made.pages, pool, free,
      ← Multiset.singleton_add]
    abel
  have owned : Owned (pool k' new ({page} + s.rest np)) P.heap (s.Elsewhere np)
      (fun x => L ∧ s.Elsewhere np x) := by
    rw [heap_eq]
    cases thread with
    | false =>
      have sum : pool k' new ({page} + s.rest np) + userPages new.lookup (npg (s.proc p).sz) =
        s.owned := sum
      have nodup := inv.nodup
      rw [← sum] at nodup
      refine owned_iff.mpr ⟨?_, fun x elsewhere mem => away elsewhere ?_,
        fun x mem apart => away apart.2 ?_⟩
      · refine (congrArg Multiset.Nodup ?_).mpr nodup
        unfold stock pool
        abel
      · rw [← sum]
        exact mem_add.mpr (.inl mem)
      · rw [← sum]
        exact mem_add.mpr (.inr mem)
    | true =>
      have same : pool k' new ({page} + s.rest np) = s.owned := (add_zero _).symm.trans sum
      have held {v x : Nat} (inHeap : heap new.lookup (npg (s.proc p).sz) v = some x) :
          (s.proc p).heap v = some x := by
        obtain ⟨low, pte, mapped, isX⟩ := heap_eq_some.mp inHeap
        rw [Proc.heap_eq table]
        have leaf := made.filled v
        rw [if_pos low] at leaf
        exact heap_eq_some.mpr ⟨low, pte, leaf ▸ mapped, isX⟩
      rw [same]
      exact ⟨inv.nodup, fun inHeap => inv.outside ⟨tracked, _, held inHeap⟩,
        fun one two => inv.inj tracked (held one) (held two), away,
        fun _ apart => Bool.noConfusion (alone apart.1)⟩
  refine inv.enter (samePool ▸ owned) (fun pt same => ?_) state pid fun both => ?_
  · rw [isTable] at same
    cases same
    rw [size]
    exact made.filled.shape fits
  · rw [isThread]
    exact alone both

/-- `fork` and `clone`. -/
theorem Spawns.inv (effect : Spawns regs thread s p s' value) (inv : Inv L R s)
    (keeps : ∀ frame k, (regs frame k).free = k.free) (alone : L → thread = false)
    (tracked : (s.proc p).Tracked) : Inv L R s' := by
  cases effect with
  | full => exact inv
  | @undone np k found restored =>
    have empty := inv.blank np (State.unusedSlot_state found)
    refine inv.counted.free rfl (Proc.cleared_empty _) ?_ fun _ v x held => ?_
    · rw [restored.free]
      rw [Proc.pages_empty empty, zero_add]
    · obtain ⟨_, pte, mapped, _⟩ := heap_eq_some.mp held
      rw [Proc.leaf_none empty.1] at mapped
      cases mapped
  | made found table frame made =>
    refine inv.born (State.unusedSlot_state found) alone tracked table made ?_ ?_ ?_ ?_ ?_ ?_ ?_
    · exact keeps _ _
    all_goals rfl

/-! ## Exit and kill -/

/-- An exit frees nothing; a thread's heap is no longer tracked. -/
theorem Inv.exited (inv : Inv L R s) (inUse : (s.proc p).state ≠ .unused) (status : Int) :
    Inv L R (s.exited p status) := by
  refine inv.same_memory rfl rfl rfl rfl (State.exited_same inUse status) fun q tracked => ?_
  unfold Proc.Tracked at tracked
  rw [State.exited_state, (State.exited_same inUse status q).thread] at tracked
  by_cases here : q = p
  · subst here
    rw [if_pos rfl] at tracked
    exact ⟨inUse, fun thread => tracked.2 ⟨rfl, thread.2⟩⟩
  · rwa [if_neg here] at tracked

theorem Inv.setFlags (inv : Inv L R s) (memory : (s.proc q).SameMemory P)
    (tracked : P.Tracked → (s.proc q).Tracked) : Inv L R (s.set q P s.kmem) := by
  refine inv.same_memory rfl rfl rfl rfl (State.set_same memory _) fun r => ?_
  by_cases same : r = q
  · rw [same, State.set_proc_self]
    exact tracked
  · rw [State.set_proc_other s P s.kmem same]
    exact id

theorem Kills.inv (effect : Kills s s' value) (inv : Inv L R s) : Inv L R s' := by
  cases effect with
  | absent => exact inv
  | found q =>
    refine inv.setFlags ⟨rfl, rfl, rfl, rfl, rfl, Xv6.Proc.kill_unused _⟩ fun tracked => ?_
    refine ⟨fun unused => tracked.1 ((Xv6.Proc.kill_unused _).mpr unused), fun thread => ?_⟩
    refine tracked.2 ⟨?_, thread.2⟩
    simp [Proc.kill, thread.1]

/-! ## The memory of the caller -/

section Memory

variable {X : Multiset Nat} {attached segment foreign apart : Nat → Prop} {image image' : Image}

theorem Image.Kept.shape (kept : image.Kept image')
    (shape : Shape image.pagetable.lookup (npg image.sz) attached segment) :
    Shape image'.pagetable.lookup (npg image'.sz) attached segment := by
  rw [kept.sz]
  exact shape.below shape.top_le le_rfl fun v high => kept.high high

theorem Image.Kept.userPages (kept : image.Kept image')
    (mem : x ∈ userPages image.pagetable.lookup (npg image.sz)) :
    x ∈ userPages image'.pagetable.lookup (npg image'.sz) := by
  obtain ⟨v, low, pte, mapped, same⟩ := mem_userPages.mp mem
  refine mem_userPages.mpr ⟨v, kept.sz ▸ low, pte, ?_, same⟩
  rw [(kept.leaf v).resolve_right fun new => by rw [new.2] at mapped; cases mapped]
  exact mapped

theorem Image.Touched.good (touched : image.Touched image') (sub : ∀ x, apart x → foreign x)
    (good : image.Good X attached segment foreign apart) :
    image'.Good X attached segment foreign apart :=
  ⟨owned_moved good.owned sub touched.stock fun _ mem _ _ => touched.userPages mem,
    touched.shape good.shape⟩

/-- `exec` frees the old heap and maps the new one. -/
theorem Execs.good (effect : Execs image image' ok)
    (good : image.Good X attached segment foreign foreign) :
    image'.Good X attached segment foreign foreign := by
  refine ⟨owned_moved good.owned (fun _ holds => holds) effect.1
    fun x _ isForeign own => absurd isForeign own, ?_⟩
  have result := effect.2
  cases ok with
  | true => exact Shape.attached_mono result (fun _ => False.elim) fun _ => False.elim
  | false => exact Image.Kept.shape result good.shape

/-- `sbrk` keeps the address space. A shrinking call needs that no other process maps what it
frees; a lazy call needs that the pages it adds are not mapped already. -/
theorem Breaks.good (effect : Breaks n eager image image' ok)
    (sub : ∀ x, apart x → foreign x) (good : image.Good X attached segment foreign apart)
    (mine : n < 0 → ∀ v pte, npg (addSize image.sz n) ≤ v → v < npg image.sz →
      image.pagetable.lookup v = some pte → ¬ foreign pte.ppn)
    (clear : eager = false → 0 ≤ n → ∀ v, npg image.sz ≤ v → v < npg (image.sz + n.toNat) →
      v < trapframeVpn → image.pagetable.lookup v = none) :
    image'.Good X attached segment foreign apart := by
  cases effect with
  | refused | zero => exact good
  | full _ _ moved leaf =>
    refine ⟨owned_moved good.owned sub moved.pages fun x mem _ _ => ?_, ?_⟩
    · exact leaf.symm ▸ mem
    · exact leaf.symm ▸ good.shape
  | grown _ _ small drew laid =>
    have le : npg image.sz ≤ npg (image.sz + n.toNat) := npg_mono (Nat.le_add_right _ _)
    refine ⟨owned_moved good.owned sub drew.pages fun x mem _ _ => ?_, good.shape.fill laid le⟩
    obtain ⟨v, low, pte, mapped, same⟩ := mem_userPages.mp mem
    refine mem_userPages.mpr ⟨v, Nat.lt_of_lt_of_le low le, pte, ?_, same⟩
    rw [laid.outside v (by omega), mapped]
  | @shrunk pt k sz negative size moved cleared =>
    have le : npg sz ≤ npg image.sz := npg_mono (by omega)
    have shape := good.shape.lower le
    rw [← cleared] at shape
    refine ⟨owned_moved good.owned sub moved.pages fun x mem isForeign _ => ?_, shape⟩
    obtain ⟨v, low, pte, mapped, same⟩ := mem_userPages.mp mem
    -- a foreign page is below what is freed
    have below : v < npg sz := by
      by_contra high
      refine mine negative v pte (Nat.le_trans (npg_mono ?_) (Nat.le_of_not_lt high)) low mapped
        (same ▸ isForeign)
      by_contra larger
      rw [show sz = image.sz by omega] at high
      exact high low
    refine mem_userPages.mpr ⟨v, below, pte, ?_, same⟩
    rw [cleared, clearRange, if_neg (by omega), mapped]
  | lazily isLazy nonneg small =>
    have le : npg image.sz ≤ npg (image.sz + n.toNat) := npg_mono (Nat.le_add_right _ _)
    have top := npg_le (Nat.not_lt.mpr small)
    have pages := stock_raise image.kmem le fun v low high =>
      clear isLazy nonneg v low high (Nat.lt_of_lt_of_le high top)
    refine ⟨owned_moved good.owned sub pages fun x mem _ _ => ?_,
      good.shape.below top le fun _ _ => rfl⟩
    obtain ⟨v, low, rest⟩ := mem_userPages.mp mem
    exact mem_userPages.mpr ⟨v, Nat.lt_of_lt_of_le low le, rest⟩

theorem Breaks.size_le (effect : Breaks n eager image image' ok) :
    image'.sz ≤ image.sz + n.toNat := by
  cases effect with
  | refused | zero | full => exact Nat.le_add_right _ _
  | grown | lazily => exact le_rfl
  | shrunk _ size =>
    rw [size]
    exact Nat.le_trans (Nat.min_le_left _ _) (Nat.le_add_right _ _)

end Memory

/-- `wait` and `join` free a zombie child. -/
theorem Waits.inv (effect : Waits threads addr s p s' value)
    (inv : Inv L R s) (tracked : (s.proc p).Tracked)
    (mine : ∀ child, s.zombieChild p threads = some child → (s.proc child).isThread = false →
      ∀ x, s.Maps child x → ¬ s.Elsewhere child x) : Inv L R s' := by
  cases effect with
  | nothing => exact inv
  | failed memory reported =>
    exact inv.setImage tracked.1 (reported.1.good (fun x holds => holds.2)
      (inv.good tracked memory))
  | @reaped child image image' k found other memory reported freed =>
    have zombie := State.zombieChild_state found
    have good := inv.good tracked memory
    have heap_maps {v x : Nat} (held : heap image.pagetable.lookup (npg image.sz) v = some x) :
        s.Maps p x := by
      obtain ⟨table, size, _⟩ := State.image_some memory
      rw [← size, ← Proc.heap_eq table] at held
      exact ⟨tracked, v, held⟩
    -- while the status is copied out, the caller does not get pages of the child
    have good' : image.Good (s.around p) (fun v => R → s.Attached (s.proc p).pid v)
        (· ∈ s.segPages) (s.Elsewhere p) (fun x => L ∧ s.Elsewhere p x ∨
          (s.proc child).isThread = false ∧ s.Maps child x) := by
      refine ⟨good.owned.closer ?_, good.shape⟩
      rintro v x held (apart | ⟨process, maps⟩)
      · exact good.owned.own_apart held apart
      · exact mine child found process x maps ⟨p, other.symm, heap_maps held⟩
    have good'' := reported.1.good (fun x apart => by
      rcases apart with apart | ⟨_, maps⟩
      · exact apart.2
      · exact ⟨child, other, maps⟩) good'
    have inv' : Inv L R (s.setImage p image') :=
      inv.setImage tracked.1 ⟨good''.owned.closer fun v x held apart =>
        good''.owned.own_apart held (.inl apart), good''.shape⟩
    have same : (s.setImage p image').proc child = s.proc child := State.setImage_other image' other
    refine inv'.free rfl (Proc.cleared_empty _) (by rw [same]; exact freed.free) ?_
    rw [same]
    intro process v x held
    have maps : s.Maps child x := ⟨⟨by rw [zombie]; decide, by rw [process]; simp⟩, v, held⟩
    refine ⟨(State.set_maps_other other x).mpr maps, ?_⟩
    rintro ⟨q, notChild, maps'⟩
    by_cases caller : q = p
    · subst caller
      obtain ⟨_, v, held⟩ := maps'
      rw [State.setImage_self, Proc.heap_eq rfl] at held
      exact good''.owned.own_apart held (.inr ⟨process, maps⟩)
    · exact mine child found process x maps ⟨q, notChild, (State.set_maps_other caller x).mp maps'⟩

theorem Faults.inv (effect : Faults va s p s' value) (inv : Inv L R s)
    (tracked : (s.proc p).Tracked) : Inv L R s' := by
  have kept {image image' : Image} (memory : s.image p = some image)
      (touched : image.Touched image') : Inv L R (s.setImage p image') :=
    inv.setImage tracked.1 (touched.good (fun x holds => holds.2) (inv.good tracked memory))
  cases effect with
  | served memory touched => exact kept memory touched
  | @killed image image' memory touched =>
    have doomed : Inv L R ((s.setImage p image').doom p) :=
      (kept memory touched).setFlags ⟨rfl, rfl, rfl, rfl, rfl, Iff.rfl⟩ id
    refine doomed.exited ?_ (-1)
    rw [State.doom, State.set_proc_self, State.setImage_self]
    exact tracked.1

/-! ## Segments -/

theorem State.segPages_insert (s : State) {id : Fin NSHM} (unused : s.segtable id = none)
    (seg : Shmseg) :
    ({ s with segtable := update s.segtable id (some seg) } : State).segPages =
      s.segPages + seg.pages := by
  unfold State.segPages
  rw [← Finset.add_sum_erase _ _ (Finset.mem_univ id),
    ← Finset.add_sum_erase _ (fun i => (s.segtable i).elim 0 fun seg => (seg.pages : Multiset Nat))
      (Finset.mem_univ id)]
  rw [Finset.sum_congr rfl (g := fun i => (s.segtable i).elim 0 fun seg =>
    (seg.pages : Multiset Nat))]
  · simp only [update_self, unused, Option.elim_some, Option.elim_none, zero_add]
    rw [add_comm]
  · intro i mem
    dsimp only
    rw [update_of_ne (Finset.ne_of_mem_erase mem)]

/-- A new segment takes its pages from the free list. -/
theorem Inv.segments_grow (inv : Inv L R s)
    (sum : (k.free : Multiset Nat) + pages = s.kmem.free)
    (grown : ({ s with kmem := k, segtable := segtable } : State).segPages = s.segPages + pages)
    (segments : ∀ {i seg}, segtable i = some seg →
      seg.pages.length = seg.npages.toNat ∧ seg.npages ≤ SHM_MAXPAGES) :
    Inv L R { s with kmem := k, segtable := segtable } := by
  have sameOwned : ({ s with kmem := k, segtable := segtable } : State).owned = s.owned := by
    unfold State.owned
    rw [grown, ← sum]
    abel
  refine ⟨?_, ?_, inv.inj, inv.apart, inv.threads, ?_, inv.unused, inv.pid_lt,
    inv.pid_inj, inv.ranges, segments⟩
  · rw [sameOwned]
    exact inv.nodup
  · intro q x maps
    rw [sameOwned]
    exact inv.outside maps
  intro q pt table
  apply (inv.shape table).attached_mono fun v inside => inside
  intro x shared
  rw [grown]
  exact mem_add.mpr (.inl shared)

/-- `shmget`. -/
theorem Gets.inv (effect : Gets s s' value) (inv : Inv L R s) : Inv L R s' := by
  cases effect with
  | same => exact inv
  | @failed k free =>
    have grown : ({ s with kmem := k } : State).segPages = s.segPages + 0 := (add_zero _).symm
    exact inv.segments_grow ((add_zero _).trans free) grown inv.segments
  | @made id seg k unused sum length short =>
    refine inv.segments_grow sum (State.segPages_insert { s with kmem := k } unused seg) ?_
    intro i seg' present
    by_cases here : i = id
    · rw [here, update_self] at present
      cases present
      exact ⟨length, short⟩
    · rw [update_of_ne here] at present
      exact inv.segments present

/-! ## Records -/

theorem pidslot_val (slot : pidslot pid = some row) : pid = row.val + 1 := by
  unfold pidslot at slot
  split at slot
  · next bounds =>
    cases slot
    dsimp only
    omega
  · cases slot

theorem State.addRef_segPages (s : State) (id : Fin NSHM) (d : Int) :
    (s.addRef id d).segPages = s.segPages := by
  apply Finset.sum_congr rfl
  intro i _
  by_cases same : i = id
  · subst same
    simp only [State.addRef, update_self]
    cases s.segtable i <;> rfl
  · simp only [State.addRef, update_of_ne same]

theorem State.addRef_segtable {id id' : Fin NSHM}
    (present : (s.addRef id d).segtable id' = some seg) :
    ∃ old, s.segtable id' = some old ∧ seg.npages = old.npages ∧ seg.pages = old.pages ∧
      seg.refcnt = old.refcnt + if id = id' then d else 0 := by
  unfold State.addRef at present
  dsimp only at present
  by_cases here : id' = id
  · subst here
    rw [update_self] at present
    obtain ⟨old, was, rfl⟩ := Option.map_eq_some_iff.mp present
    exact ⟨old, was, rfl, rfl, by rw [if_pos rfl]⟩
  · rw [update_of_ne here] at present
    exact ⟨seg, present, rfl, rfl, by rw [if_neg (Ne.symm here), add_zero]⟩

theorem Inv.addRef (inv : Inv L R s) (id : Fin NSHM) (d : Int) : Inv L R (s.addRef id d) := by
  have sameOwned : (s.addRef id d).owned = s.owned := by
    unfold State.owned
    rw [State.addRef_segPages]
    rfl
  refine ⟨?_, ?_, inv.inj, inv.apart, inv.threads, ?_, inv.unused, inv.pid_lt, inv.pid_inj,
    inv.ranges, ?_⟩
  · rw [sameOwned]
    exact inv.nodup
  · intro q x maps
    rw [sameOwned]
    exact inv.outside maps
  · intro q pt table
    rw [State.addRef_segPages]
    exact inv.shape table
  · intro i seg present
    obtain ⟨old, was, npages, pages, _⟩ := State.addRef_segtable present
    rw [npages, pages]
    exact inv.segments was

theorem State.setRecord_self (s : State) (row : Fin NPROC) (i : Fin NSHM)
    (entry : Option Shmattach) : (s.setRecord row i entry).attachtable row i = entry := by
  simp [State.setRecord]

theorem State.setRecord_other (s : State) (entry : Option Shmattach)
    (other : ¬ (row' = row ∧ i' = i)) :
    (s.setRecord row i entry).attachtable row' i' = s.attachtable row' i' := by
  unfold State.setRecord
  by_cases sameRow : row' = row
  · have otherI : i' ≠ i := fun sameI => other ⟨sameRow, sameI⟩
    simp [sameRow, otherI]
  · simp [sameRow]

theorem State.of_setRecord (present : (s.setRecord row i entry).attachtable row' i' = some entry') :
    s.attachtable row' i' = some entry' ∨ row' = row ∧ i' = i ∧ entry = some entry' := by
  by_cases here : row' = row ∧ i' = i
  · obtain ⟨sameRow, sameI⟩ := here
    rw [sameRow, sameI, State.setRecord_self] at present
    exact .inr ⟨sameRow, sameI, present⟩
  · rw [State.setRecord_other s entry here] at present
    exact .inl present

theorem State.of_record (present : (s.record row entry).attachtable row' i = some entry') :
    s.attachtable row' i = some entry' ∨ row' = row ∧ entry' = entry := by
  unfold State.record at present
  split at present
  · exact .inl present
  · rcases State.of_setRecord present with old | ⟨sameRow, _, same⟩
    · exact .inl old
    · exact .inr ⟨sameRow, (Option.some.inj same).symm⟩

theorem State.freeRecord_some (found : s.freeRecord row = some i) : s.attachtable row i = none := by
  simpa using List.find?_some found

theorem State.Attached.addRecord (attached : s.Attached pid v) (free : s.attachtable row i = none)
    (entry : Shmattach) : (s.setRecord row i (some entry)).Attached pid v := by
  obtain ⟨row', i', entry', slot, present, covers⟩ := attached
  refine ⟨row', i', entry', slot, ?_, covers⟩
  rw [State.setRecord_other]
  · exact present
  · rintro ⟨rfl, rfl⟩
    rw [free] at present
    cases present

theorem Inv.addRecord (inv : Inv L R s) (free : s.attachtable row i = none)
    (range : ¬ entry.Covers trapframeVpn) : Inv L R (s.setRecord row i (some entry)) := by
  refine ⟨inv.nodup, inv.outside, inv.inj, inv.apart, inv.threads, ?_, inv.unused, inv.pid_lt,
    inv.pid_inj, ?_, inv.segments⟩
  · intro q pt table
    exact (inv.shape table).attached_mono (fun v inside recorded =>
      (inside recorded).addRecord free entry) fun x shared => shared
  intro row' i' entry' present
  rcases State.of_setRecord present with old | ⟨_, _, same⟩
  · exact inv.ranges old
  · cases same
    exact range

/-- A record can go when its range is no longer mapped. -/
theorem Inv.dropRecord (inv : Inv L R s)
    (was : s.attachtable row i = some entry)
    (unmapped : ∀ q pt v, pidslot (s.proc q).pid = some row → (s.proc q).pagetable = some pt →
      entry.Covers v → pt.lookup v = none) : Inv L R (s.setRecord row i none) := by
  refine ⟨inv.nodup, inv.outside, inv.inj, inv.apart, inv.threads, ?_, inv.unused, inv.pid_lt,
    inv.pid_inj, ?_, inv.segments⟩
  · intro q pt table
    have shape := inv.shape table
    refine ⟨shape.top_le, shape.trapframe, ?_⟩
    intro v pte mapped
    rcases shape.leaf_cases mapped with low | ⟨inside, shared⟩ | trap
    · exact .inl low
    · refine .inr (.inl ⟨fun recorded => ?_, shared⟩)
      obtain ⟨row', i', entry', slot, present, covers⟩ := inside recorded
      refine ⟨row', i', entry', slot, ?_, covers⟩
      rw [State.setRecord_other]
      · exact present
      rintro ⟨rfl, rfl⟩
      rw [was] at present
      cases present
      rw [unmapped q pt v slot table covers] at mapped
      cases mapped
    · exact .inr (.inr trap)
  · intro row' i' entry' present
    rcases State.of_setRecord present with old | ⟨_, _, same⟩
    · exact inv.ranges old
    · cases same

/-! ## Attaching and detaching -/

theorem State.segOf_some {id : Fin NSHM} (found : s.segOf shmid = some (id, seg)) :
    s.segtable id = some seg := by
  unfold State.segOf at found
  split at found
  · obtain ⟨seg', present, ⟨⟩⟩ := Option.map_eq_some_iff.mp found
    exact present
  · cases found

theorem State.mem_segPages {id : Fin NSHM} (present : s.segtable id = some seg)
    (mem : x ∈ seg.pages) : x ∈ s.segPages := by
  unfold State.segPages
  rw [← Finset.add_sum_erase _ _ (Finset.mem_univ id), mem_add, present]
  exact .inl mem

section Attach

variable {shmid : Int} {id : Fin NSHM} {seg : Shmseg} {row : Fin NPROC} {image : Image}

/-- The comparison with `TRAPFRAME` keeps the range below it, unless it is empty. -/
theorem AttachAt.below (place : AttachAt s p shmid id seg row image)
    (top : npg image.sz ≤ trapframeVpn) (short : seg.npages ≤ SHM_MAXPAGES)
    (low : attachVpn image.sz ≤ v) (high : v < attachVpn image.sz + seg.npages.toNat) :
    v < trapframeVpn := by
  have fits := place.fits
  unfold SHM_MAXPAGES at short
  unfold attachVpn at *
  unfold trapframeVpn MAXVPN at *
  unfold PGSIZE at fits
  omega

theorem AttachAt.length (place : AttachAt s p shmid id seg row image) (inv : Inv L R s) :
    seg.pages.length = seg.npages.toNat :=
  (inv.segments (State.segOf_some place.found)).1

/-- An attached range ends below the trapframe. -/
theorem AttachAt.small (place : AttachAt s p shmid id seg row image) (inv : Inv L R s)
    (low : attachVpn image.sz ≤ v) (high : v < attachVpn image.sz + seg.pages.length) :
    v < trapframeVpn := by
  rw [place.length inv] at high
  exact place.below (inv.sized.image place.memory) (inv.segments (State.segOf_some place.found)).2
    low high

theorem Image.Good.walked {segment : Nat → Prop}
    (good : image.Good X attached segment foreign apart)
    (walked : Walked image.kmem image.pagetable k pt)
    (low : ∀ v < npg image.sz, pt.lookup v = image.pagetable.lookup v)
    (shape : Shape pt.lookup (npg image.sz) attached' segment) :
    Image.Good X attached' segment foreign apart { image with pagetable := pt, kmem := k } := by
  refine ⟨?_, shape⟩
  rw [pool_eq walked.pages, heap_congr low]
  exact good.owned

/-- `shmattach` keeps the invariant; where attached ranges are recorded, it needs a free record. -/
theorem Attaches.inv (effect : Attaches shmid s p s' value) (inv : Inv L R s)
    (tracked : (s.proc p).Tracked)
    (room : R → ∀ row, pidslot (s.proc p).pid = some row → s.freeRecord row ≠ none) :
    Inv L R s' := by
  cases effect with
  | refused => exact inv
  | @undone id seg row image pt k n place walked le cleared =>
    have good := inv.good tracked place.memory
    have shape : Shape (clearRange _ (attachVpn image.sz) n) _ _ _ := good.shape.clear fun inside =>
      Nat.lt_irrefl _ (place.small inv inside.1 (by omega))
    rw [← cleared] at shape
    refine inv.setImage tracked.1 (good.walked walked (fun v low => ?_) shape)
    rw [cleared]
    exact if_neg (by unfold attachVpn; omega)
  | @attached id seg row image pt k place walked mapped =>
    have good := inv.good tracked place.memory
    have present := State.segOf_some place.found
    have low (v : Nat) (inHeap : v < npg image.sz) :
        pt.lookup v = image.pagetable.lookup v := mapped.outside v (by unfold attachVpn; omega)
    -- the shape, once the range counts as attached
    have shape {attached : Nat → Prop} (old : ∀ v, (R → s.Attached (s.proc p).pid v) → attached v)
        (range : ∀ v, attachVpn image.sz ≤ v → v < attachVpn image.sz + seg.pages.length →
          attached v) : Shape pt.lookup (npg image.sz) attached (· ∈ s.segPages) := by
      refine ⟨good.shape.top_le, ?_, ?_⟩
      · rw [mapped.outside _ fun inside => Nat.lt_irrefl _ (place.small inv inside.1 inside.2)]
        exact good.shape.trapframe
      intro v pte there
      by_cases inside : attachVpn image.sz ≤ v ∧ v < attachVpn image.sz + seg.pages.length
      · have mem := mapped.mem inside.1 inside.2 there
        exact .inr (.inl ⟨range v inside.1 inside.2, State.mem_segPages present mem⟩)
      rw [mapped.outside v inside] at there
      rcases good.shape.leaf_cases there with low | ⟨was, shared⟩ | trap
      · exact .inl low
      · exact .inr (.inl ⟨old v was, shared⟩)
      · exact .inr (.inr trap)
    have covers (v : Nat) : (Shmattach.mk id (attachVpn image.sz * PGSIZE) seg.npages).Covers v ↔
        attachVpn image.sz ≤ v ∧ v < attachVpn image.sz + seg.pages.length := by
      unfold Shmattach.Covers
      rw [Nat.mul_div_cancel _ (by decide), place.length inv]
    unfold State.record
    split
    · next full =>
      have kept := inv.setImage tracked.1 (good.walked walked low (shape (fun v was => was)
        fun v _ _ recorded => absurd full (room recorded row place.slot)))
      exact kept.addRef id 1
    · next i free =>
      have unused : s.attachtable row i = none := State.freeRecord_some free
      have range : ¬ (Shmattach.mk id (attachVpn image.sz * PGSIZE) seg.npages).Covers
          trapframeVpn := by
        rw [covers]
        exact fun inside => Nat.lt_irrefl _ (place.small inv inside.1 inside.2)
      have new := s.setRecord_self row i (some ⟨id, attachVpn image.sz * PGSIZE, seg.npages⟩)
      have kept := (inv.addRecord unused range).setImage tracked.1 (good.walked walked low (shape
        (fun v was inR => (was inR).addRecord unused _)
        fun v low high _ => ⟨row, i, _, place.slot, new, (covers v).mpr ⟨low, high⟩⟩))
      exact kept.addRef id 1

end Attach

/-- `shmdt` unmaps the range and drops its record. -/
theorem Detaches.inv (effect : Detaches addr s p s' value) (inv : Inv L R s)
    (tracked : (s.proc p).Tracked) : Inv L R s' := by
  cases effect with
  | absent => exact inv
  | @detached row i entry image pt slot present va memory pages cleared =>
    have good := inv.good tracked memory
    rw [← va] at cleared
    have shape := good.shape.clear (inv.ranges present)
    rw [← cleared] at shape
    have kept : Inv L R (s.setImage p { image with pagetable := pt }) := by
      refine inv.setImage tracked.1 ⟨?_, shape⟩
      rw [pool, pages]
      refine good.owned.fewer fun v x held => ?_
      obtain ⟨inside, pte, mapped, same⟩ := heap_eq_some.mp held
      rw [cleared] at mapped
      exact heap_eq_some.mpr ⟨inside, pte, (clearRange_eq_some.mp mapped).2, same⟩
    refine Inv.addRef ?_ entry.shmid (-1)
    refine kept.dropRecord present fun q pt' v slot' table' covers => ?_
    -- the row belongs to one process
    have same : q = p := by
      refine kept.pid_inj (fun unused => ?_) ?_ ?_
      · rw [(kept.unused unused).1] at table'
        cases table'
      · rw [State.setImage_self]
        exact tracked.1
      · rw [pidslot_val slot', State.setImage_self, pidslot_val slot]
    subst same
    rw [State.setImage_self] at table'
    cases table'
    rw [cleared]
    exact if_pos covers

end Xv6.Vm
