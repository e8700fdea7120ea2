import Xv6.Vm.Rows

/-!
# What calls leave behind

What `fork`, `clone`, `sbrk` and `exec` do in the states that a run reaches, whether they fail or
not: the pages of every process and of the allocator, and the content of the pages.

Page tables are values here, and the free list is a list beside the memory. They stand for the
kernel's as long as no page is in two of these places or is written by user code while it is in
one, which `Inv.nodup` and `Inv.user_outside` say of every run that frees no page mapped elsewhere
and extends no heap over a mapped page. So the results are about such runs (`Sparing`).
-/

namespace Xv6.Vm

open Multiset (coe_nodup mem_add mem_coe nodup_add)

variable {m : Machine} {p : Slot} {c : Call} {s s' : State} {value : Option Nat}

/-- The call frees no page that is in another heap, and extends no heap over a mapped page. -/
def State.Spares (s : State) (p : Slot) (c : Call) : Prop :=
  s.FreesPrivate p c ∧ s.GrowsClear p c
  deriving Decidable

def Sparing (m : Machine) (l : Event) : Prop :=
  m.state.Spares l.1.1 (m.state.entered l.1.1 l.1.2)
  deriving Decidable

theorem inv_of_sparing (reach : system.ReachableWhen Sparing m) : Inv False False m.state := by
  refine reach.invariant (P := fun m => Inv False False m.state) ?_ ?_
  · intro m start
    exact start.inv.weaken False.elim False.elim
  · intro m ⟨⟨p, c⟩, value⟩ m' inv ⟨frees, clear⟩ step
    exact inv.step step False.elim frees clear False.elim

theorem effect_of_call {L R : Prop} (inv : Inv L R s) (live : (s.proc p).state.live)
    (run : call s p c = .ok (some (s', value))) : Effect s p c s' value := by
  have rule := call_ends inv.blank inv.sized live c
  rw [run] at rule
  exact rule.value _ _ rfl

theorem noFreedPage_of_spares (inv : Inv False False m.state) (live : (m.state.proc p).state.live)
    (spares : m.state.Spares p c) (effect : Effect m.state p c s' value) :
    NoFreedPage { m with state := s' } := by
  have after : Inv False False s' :=
    effect.inv inv live False.elim spares.1 spares.2 False.elim
  intro q v pte live mapped user free
  exact after.user_outside live mapped user (mem_add.mpr (.inl free))

theorem exists_call (shown : (call s p c).toOption.map (·.map (·.2)) = some (some value)) :
    ∃ s', call s p c = .ok (some (s', value)) := by
  obtain ⟨result, returned, is⟩ := Option.map_eq_some_iff.mp shown
  obtain ⟨⟨s', value⟩, rfl, rfl⟩ := Option.map_eq_some_iff.mp is
  exact ⟨s', Outcome.ok_of_toOption returned⟩

/-! ## fork and clone -/

/-- The state differs from `s` only in free pages, the order of the free list, and the pids. -/
structure State.Undone (s s' : State) : Prop where
  free : (s'.kmem.free : Multiset Nat) = s.kmem.free
  mem : ∀ x ∉ s.kmem.free, s'.kmem.mem x = s.kmem.mem x
  used : ∀ q, (s.proc q).state ≠ .unused → s'.proc q = s.proc q
  unused : ∀ q, (s.proc q).state = .unused → (s'.proc q).state = .unused ∧ (s'.proc q).Empty
  tables : s'.segtable = s.segtable ∧ s'.attachtable = s.attachtable

theorem Spawns.undone_of_none (blank : s.Blank) (effect : Spawns regs thread s p s' none) :
    s.Undone s' := by
  cases effect with
  | full =>
    exact ⟨rfl, fun _ _ => rfl, fun _ _ => rfl, fun q unused => ⟨unused, blank q unused⟩, rfl, rfl⟩
  | @undone np k found restored =>
    have slot := State.unusedSlot_state found
    refine ⟨restored.free, restored.within.mem, fun q used => ?_, fun q unused => ?_, rfl, rfl⟩
    · have other : q ≠ np := fun same => used (same ▸ slot)
      exact State.set_proc_other _ _ _ other
    · by_cases here : q = np
      · rw [here, State.enter, State.set_proc_self]
        exact ⟨rfl, Proc.cleared_empty _⟩
      · rw [State.enter, State.set_proc_other _ _ _ here]
        exact ⟨unused, blank q unused⟩

/-- **A `fork` or `clone` that fails leaves no trace**, wherever the memory ran out. -/
theorem failed_spawn_undone (reach : system.ReachableWhen Sparing m)
    (live : (m.state.proc p).state.live) (spawns : c.spawns)
    (run : call m.state p c = .ok (some (s', none))) : m.state.Undone s' := by
  have inv := inv_of_sparing reach
  have effect := effect_of_call inv live run
  cases c with
  | fork | clone => exact effect.undone_of_none inv.blank
  | _ => cases spawns

/-- Memory for a copy of the process runs out in the middle. -/
theorem failed_spawn_undone_full : ∃ m s', system.ReachableWhen Sparing m ∧
    m.state.kmem.free.length = 13 ∧ call m.state 0 .fork = .ok (some (s', none)) ∧
    m.state.Undone s' := by
  obtain ⟨m, reach, live, few, fails⟩ : ∃ m, system.ReachableWhen Sparing m ∧
      (m.state.proc 0).state.live ∧ m.state.kmem.free.length = 13 ∧
      (call m.state 0 .fork).toOption.map (·.map (·.2)) = some (some none) :=
    Lts.exists_of_run forked_start [(0, .sbrk 32768 true)] (by decide +kernel)
  obtain ⟨s', run⟩ := exists_call fails
  exact ⟨m, s', reach, few, run, failed_spawn_undone reach live rfl run⟩

/-- Process `np` is a copy of `p`, on pages that were free. -/
structure State.Copied (s s' : State) (p np : Slot) : Prop where
  slot : (s.proc np).state = .unused
  others : ∀ q, q ≠ np → s'.proc q = s.proc q
  mem : ∀ x ∉ s.kmem.free, s'.kmem.mem x = s.kmem.mem x
  size : (s'.proc np).sz = (s.proc p).sz
  hole : ∀ v < npg (s.proc p).sz, (s.proc p).leaf v = none → (s'.proc np).leaf v = none
  page : ∀ v < npg (s.proc p).sz, ∀ pte, (s.proc p).leaf v = some pte → ∃ page ∈ s.kmem.free,
    page ∉ s'.kmem.free ∧ (s'.proc np).leaf v = some ⟨page, pte.perm⟩ ∧
      s'.kmem.mem page = s.kmem.mem pte.ppn
  inj : ∀ v w a b, v < npg (s.proc p).sz → w < npg (s.proc p).sz → (s'.proc np).leaf v = some a →
    (s'.proc np).leaf w = some b → a.ppn = b.ppn → v = w

/-- **`fork` copies the memory below the size and shares none of it.** -/
theorem fork_copies (reach : system.ReachableWhen Sparing m)
    (live : (m.state.proc p).state.live)
    (run : call m.state p .fork = .ok (some (s', some pid))) :
    ∃ np, m.state.Copied s' p np ∧ (s'.proc np).pid = pid ∧ (s'.proc np).parent = some p := by
  have inv := inv_of_sparing reach
  have effect : Spawns _ false m.state p s' (some pid) := effect_of_call inv live run
  generalize m.state = s at *
  generalize size : npg (s.proc p).sz = top
  cases effect with
  | @made np old new frame page k found table _ made =>
  obtain ⟨pages, within, laid⟩ := made
  rw [size] at pages laid
  replace laid : Laid s.kmem k (copyOf old) _ 0 top new.lookup := laid
  have nodup : s.kmem.free.Nodup := by
    have owned := inv.nodup
    rw [State.owned_eq _ p, nodup_add, nodup_add] at owned
    exact coe_nodup.mp owned.1.1
  obtain ⟨fresh, apart⟩ : page ∉ (k.free : Multiset Nat) + new.pages + userPages new.lookup top ∧
      (userPages new.lookup top).Nodup := by
    have all := coe_nodup.mpr nodup
    rw [← pages, Multiset.nodup_cons] at all
    exact ⟨all.1, (nodup_add.mp all.2).2.1⟩
  have isFree : page ∈ s.kmem.free := by
    rw [← mem_coe, ← pages]
    exact Multiset.mem_cons_self _ _
  -- besides the copies, only the trapframe is written
  have mem {x : Nat} (other : x ≠ page) :
      ((k.copyPage page frame).setReg page tfA0 0).mem x = k.mem x := by
    simp [Kmem.setReg, Kmem.store, Kmem.copyPage, other]
  have leaf : (s.proc p).leaf = old.lookup := Proc.leaf_eq table
  have child {P : Proc} {k : Kmem} (table : P.pagetable = some new) :
      ((s.enter np P k).proc np).leaf = new.lookup := by
    rw [State.enter, State.set_proc_self]
    exact Proc.leaf_eq table
  refine ⟨np, ⟨State.unusedSlot_state found, fun q other => State.set_proc_other _ _ _ other,
    fun x used => ?_, by simp [State.enter], fun v low none => ?_, fun v low pte mapped => ?_,
    fun v w a b low low' one two same => ?_⟩, by simp [State.enter, State.claim],
    by simp [State.enter]⟩
  · have other : x ≠ page := fun same => used (same ▸ isFree)
    exact (mem other).trans (within.mem x used)
  · rw [leaf] at none
    rw [child rfl]
    exact laid.hole v (Nat.zero_le v) (size ▸ low) (by rw [copyOf, none]; rfl)
  · have held : (s.proc p).heap v = some pte.ppn := heap_eq_some.mpr ⟨low, pte, mapped, rfl⟩
    have used := inv.outside ⟨tracked_of_live live, v, held⟩
    rw [leaf] at mapped
    obtain ⟨copy, free, is, more⟩ := laid.page v pte.perm (some pte.ppn) (Nat.zero_le v)
      (size ▸ low) (by rw [copyOf, mapped]; rfl)
    obtain ⟨gone, content⟩ := more nodup
    have other : copy ≠ page := by
      rintro rfl
      exact fresh (mem_add.mpr (.inr (mem_userPages.mpr ⟨v, size ▸ low, _, is, rfl⟩)))
    refine ⟨copy, free, gone, by rw [child rfl, is], (mem other).trans (content ?_)⟩
    rintro x ⟨⟩ inFree
    refine used ?_
    rw [State.owned_eq _ p]
    exact mem_add.mpr (.inl (mem_add.mpr (.inl inFree)))
  · rw [child rfl] at one two
    rw [size] at low low'
    exact userPages_nodup.mp apart v w a.ppn (heap_eq_some.mpr ⟨low, a, one, rfl⟩)
      (heap_eq_some.mpr ⟨low', b, two, same.symm⟩)

/-- The stack of the child has the content of its parent's. -/
theorem fork_copies_child : ∃ m s' np pte page, system.ReachableWhen Sparing m ∧
    (m.state.proc 0).leaf 2 = some pte ∧ m.state.Copied s' 0 np ∧
    (s'.proc np).leaf 2 = some ⟨page, pte.perm⟩ ∧ s'.kmem.mem page = m.state.kmem.mem pte.ppn := by
  have live : (forked.state.proc 0).state.live := by decide +kernel
  have there : ((forked.state.proc 0).leaf 2).isSome ∧ 2 < npg (forked.state.proc 0).sz := by
    decide +kernel
  obtain ⟨pte, mapped⟩ := Option.isSome_iff_exists.mp there.1
  obtain ⟨s', run⟩ : ∃ s', call forked.state 0 .fork = .ok (some (s', some 3)) :=
    exists_call (by decide +kernel)
  have reach : system.ReachableWhen Sparing forked := .init forked_start
  obtain ⟨np, copied, -⟩ := fork_copies reach live run
  obtain ⟨page, -, -, leaf, content⟩ := copied.page 2 there.2 pte mapped
  exact ⟨forked, s', np, pte, page, reach, mapped, copied, leaf, content⟩

/-! ## sbrk and exec -/

/-- What a call of `sbrk` with argument `n` that succeeds does to the size and the page table;
`free` are the pages that were free. -/
structure Broken (free : List Nat) (n : Int) (eager : Bool) (sz sz' : Nat)
    (leaf leaf' : Nat → Option Pte) : Prop where
  size : sz' = if n < -sz then sz else (sz + n).toNat
  room : 0 < n → sz' ≤ trapframeVpn * PGSIZE
  kept : ∀ v, (v < npg sz ↔ v < npg sz') → leaf' v = leaf v
  gone : ∀ v, npg sz' ≤ v → v < npg sz → leaf' v = none
  new : ∀ v, npg sz ≤ v → v < npg sz' → if eager then
    ∃ page ∈ free, leaf' v = some ⟨page, { w := true, r := true, u := true }⟩ else leaf' v = leaf v

theorem Breaks.broken {image image' : Image} (broke : Breaks n eager image image' true)
    (small : image.sz ≤ trapframeVpn * PGSIZE) (int : -2 ^ 31 ≤ n) :
    Broken image.kmem.free n eager image.sz image'.sz image.pagetable.lookup
      image'.pagetable.lookup := by
  cases broke with
  | zero zero =>
    refine ⟨?_, fun _ => small, fun _ _ => rfl, fun v high low => ?_, fun v high low => ?_⟩
    · rw [if_neg (by omega)]
      omega
    · omega
    · omega
  | grown isEager positive room _ laid =>
    have more : npg image.sz ≤ npg (image.sz + n.toNat) := npg_mono (Nat.le_add_right _ _)
    refine ⟨?_, fun _ => room, fun v same => laid.outside v (by dsimp only at same; omega),
      fun v high low => ?_, fun v high low => ?_⟩
    · dsimp only
      rw [if_neg (by omega)]
      omega
    · dsimp only at high
      omega
    · obtain ⟨page, free, is, _⟩ := laid.page v _ _ high low rfl
      rw [if_pos isEager]
      exact ⟨page, free, is⟩
  | @shrunk pt k sz negative size _ cleared =>
    have fewer : npg sz ≤ npg image.sz := npg_mono (size ▸ Nat.min_le_left _ _)
    dsimp only
    rw [cleared]
    refine ⟨?_, fun positive => by omega, fun v same => if_neg (by omega),
      fun v high low => if_pos (by omega), fun v high low => by omega⟩
    have top : trapframeVpn * PGSIZE < 2 ^ 63 := by decide
    rw [size, addSize]
    split
    · omega
    · omega
  | lazily notEager nonneg room =>
    have more : npg image.sz ≤ npg (image.sz + n.toNat) := npg_mono (Nat.le_add_right _ _)
    refine ⟨?_, fun _ => room, fun _ _ => rfl, fun v high low => ?_, fun v _ _ => ?_⟩
    · dsimp only
      rw [if_neg (by omega)]
      omega
    · dsimp only at high
      omega
    · rw [if_neg (by simp [notEager])]

/-- **`sbrk` moves the break exactly or not at all**; one that would move it below 0 does nothing,
and reports success. -/
theorem sbrk_moves_break (reach : system.ReachableWhen Sparing m)
    (live : (m.state.proc p).state.live) (spares : m.state.Spares p (.sbrk n eager))
    (int : -2 ^ 31 ≤ n) (run : call m.state p (.sbrk n eager) = .ok (some (s', value))) :
    NoFreedPage { m with state := s' } ∧ (∀ q, q ≠ p → s'.proc q = m.state.proc q) ∧
    (value = none → 0 < n ∧ (s'.proc p).sz = (m.state.proc p).sz ∧
      (s'.proc p).leaf = (m.state.proc p).leaf) ∧
    ∀ old, value = some old → old = (m.state.proc p).sz ∧ Broken m.state.kmem.free n eager old
      (s'.proc p).sz (m.state.proc p).leaf (s'.proc p).leaf := by
  have inv := inv_of_sparing reach
  have effect : Works (Breaks n eager) _ m.state p s' value := effect_of_call inv live run
  refine ⟨noFreedPage_of_spares inv live spares effect, ?_⟩
  generalize m.state = s at *
  obtain @⟨image, image', ok, memory, broke⟩ := effect
  obtain ⟨table, size, alloc⟩ := State.image_some memory
  have size' : ((s.setImage p image').proc p).sz = image'.sz := by simp [State.setImage]
  have leaf' : ((s.setImage p image').proc p).leaf = image'.pagetable.lookup := by
    rw [State.setImage, State.set_proc_self]
    exact Proc.leaf_eq rfl
  have small : image.sz ≤ trapframeVpn * PGSIZE := by
    have fits := inv.sized.image memory
    unfold npg PGSIZE at *
    omega
  rw [size', leaf', size, Proc.leaf_eq table, alloc]
  refine ⟨fun q other => State.set_proc_other _ _ _ other, fun none => ?_, fun old some => ?_⟩
  · cases broke with
    | refused high nonneg => exact ⟨by omega, rfl, rfl⟩
    | full _ positive _ same => exact ⟨positive, rfl, same⟩
    | _ => cases none
  · cases ok with
    | false => cases some
    | true =>
      cases some
      exact ⟨rfl, broke.broken small int⟩

theorem sbrk_moves_break_shrunk : ∃ s', call forked.state 0 (.sbrk (-8192) false) =
    .ok (some (s', some 12288)) ∧ (s'.proc 0).sz = 4096 ∧ (s'.proc 0).leaf 2 = none := by
  have live : (forked.state.proc 0).state.live := by decide +kernel
  obtain ⟨s', run⟩ : ∃ s', call forked.state 0 (.sbrk (-8192) false) =
      .ok (some (s', some 12288)) := exists_call (by decide +kernel)
  have moves := sbrk_moves_break (.init forked_start) live (by decide +kernel) (by decide) run
  obtain ⟨-, broken⟩ := moves.2.2.2 _ rfl
  have size := broken.size
  rw [if_neg (by decide)] at size
  exact ⟨s', run, size, broken.gone 2 (by rw [size]; decide) (by decide)⟩

/-- **`exec` loses no page and frees none twice**, whatever the file and the arguments and wherever
the memory runs out; if it fails, the caller keeps its memory. -/
theorem exec_conserves (reach : system.ReachableWhen Sparing m)
    (live : (m.state.proc p).state.live) (spares : m.state.Spares p (.exec file argv))
    (run : call m.state p (.exec file argv) = .ok (some (s', value))) :
    NoFreedPage { m with state := s' } ∧ ∃ image image', m.state.image p = some image ∧
      s' = m.state.setImage p image' ∧
      image'.stock = image.stock ∧ (value = none → image.Kept image') ∧
      (value ≠ none → image'.Plain) := by
  have inv := inv_of_sparing reach
  have effect : Works Execs _ m.state p s' value := effect_of_call inv live run
  refine ⟨noFreedPage_of_spares inv live spares effect, ?_⟩
  obtain @⟨image, image', ok, memory, stock, outcome⟩ := effect
  refine ⟨image, image', memory, rfl, stock, fun none => ?_, fun some => ?_⟩
  · cases ok with
    | false => exact outcome
    | true => cases none
  · cases ok with
    | false => exact absurd rfl some
    | true => exact outcome

/-- The program is loaded again, in a memory that is too small for two of it. -/
theorem exec_conserves_reload : ∃ m s' image image', system.ReachableWhen Sparing m ∧
    call m.state 0 (.exec (some sample) []) = .ok (some (s', some 0)) ∧
    m.state.image 0 = some image ∧ s' = m.state.setImage 0 image' ∧ image'.stock = image.stock ∧
    image'.Plain := by
  obtain ⟨m, reach, live, spares, loads⟩ : ∃ m, system.ReachableWhen Sparing m ∧
      (m.state.proc 0).state.live ∧ m.state.Spares 0 (.exec (some sample) []) ∧
      (call m.state 0 (.exec (some sample) [])).toOption.map (·.map (·.2)) = some (some (some 0)) :=
    Lts.exists_of_run forked_start [(0, .sbrk 32768 true)] (by decide +kernel)
  obtain ⟨s', run⟩ := exists_call loads
  obtain ⟨-, image, image', memory, same, stock, -, plain⟩ := exec_conserves reach live spares run
  exact ⟨m, s', image, image', reach, run, memory, same, stock, plain nofun⟩

end Xv6.Vm
