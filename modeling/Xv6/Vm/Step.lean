import Xv6.Vm.Keep

/-!
# Runs of the memory system

What a call must respect for the invariant to hold after it, as conditions on the
state before the call: what it frees is not mapped elsewhere (`FreesPrivate`), what it
adds to a heap without mapping it is not mapped (`GrowsClear`), and there is a record
for what it attaches (`HasRecord`). Under these every call keeps the invariant
(`Effect.inv`); a run starts in a state in which no two processes share a page and
nothing is attached.
-/

namespace Xv6.Vm

open Outcome Ownership

/-! ## Conditions on a call -/

/-- No page that process `p` maps from virtual page `low` on is in the heap of another
process. -/
def State.Private (s : State) (p : Slot) (low : Nat) : Prop :=
  ∀ q, q ≠ p → (s.proc q).Tracked → ∀ v < npg (s.proc p).sz, low ≤ v →
    ∀ w < npg (s.proc q).sz, (s.proc p).heap v = (s.proc q).heap w → (s.proc p).heap v = none

instance (s : State) (p : Slot) (low : Nat) : Decidable (s.Private p low) :=
  inferInstanceAs (Decidable (∀ q, q ≠ p → (s.proc q).Tracked → ∀ v < npg (s.proc p).sz, low ≤ v →
    ∀ w < npg (s.proc q).sz, (s.proc p).heap v = (s.proc q).heap w → (s.proc p).heap v = none))

/-- A child that `wait` or `waitx` would reap has its pages for itself, or is a thread. -/
def State.ReapsPrivate (s : State) (p : Slot) : Prop :=
  ∀ child, s.zombieChild p false = some child → (s.proc child).isThread = false → s.Private child 0
  deriving Decidable

/-- The user pages that the call frees are in no other heap: the end of the heap for a
shrinking `sbrk`, the whole heap for `exec`, the heap of the child for `wait` and `waitx`. -/
def State.FreesPrivate (s : State) (p : Slot) : Call → Prop
  | .sbrk n _ => n < 0 → s.Private p (npg (addSize (s.proc p).sz n))
  | .exec _ _ => s.Private p 0
  | .wait _ => s.ReapsPrivate p
  | .waitx _ => s.ReapsPrivate p
  | _ => True

instance (s : State) (p : Slot) : ∀ c, Decidable (s.FreesPrivate p c)
  | .sbrk _ _ => inferInstanceAs (Decidable (_ → State.Private _ _ _))
  | .exec _ _ => inferInstanceAs (Decidable (s.Private p 0))
  | .wait _ | .waitx _ => inferInstanceAs (Decidable (s.ReapsPrivate p))
  | .fork | .clone _ _ _ | .exit _ | .join | .kill _ | .shmget _ _ | .shmattach _ | .shmdetach _
  | .fault _ => .isTrue trivial

/-- A lazy `sbrk` does not extend the heap over a mapped page. -/
def State.GrowsClear (s : State) (p : Slot) : Call → Prop
  | .sbrk n false => 0 ≤ n → ∀ v < npg ((s.proc p).sz + n.toNat), npg (s.proc p).sz ≤ v →
      v < trapframeVpn → (s.proc p).leaf v = none
  | _ => True

instance (s : State) (p : Slot) : ∀ c, Decidable (s.GrowsClear p c)
  | .sbrk _ false => inferInstanceAs (Decidable (_ → ∀ _ < _, _ → _ → _ = _))
  | .sbrk _ true | .exec _ _ | .wait _ | .waitx _ | .fork | .clone _ _ _ | .exit _ | .join | .kill _
  | .shmget _ _ | .shmattach _ | .shmdetach _ | .fault _ => .isTrue trivial

/-- There is a free record for what the call attaches. -/
def State.HasRecord (s : State) (p : Slot) : Call → Prop
  | .shmattach _ => ∀ row, pidslot (s.proc p).pid = some row → s.freeRecord row ≠ none
  | _ => True

instance (s : State) (p : Slot) : ∀ c, Decidable (s.HasRecord p c)
  | .shmattach _ => inferInstanceAs (Decidable (∀ _, _ → _ ≠ none))
  | .sbrk _ _ | .exec _ _ | .wait _ | .waitx _ | .fork | .clone _ _ _ | .exit _ | .join | .kill _
  | .shmget _ _ | .shmdetach _ | .fault _ => .isTrue trivial

/-- No attachment of process `pid` is recorded. -/
def State.Detached (s : State) (pid : Nat) : Prop :=
  ∀ row, pidslot pid = some row → ∀ i, s.attachtable row i = none
  deriving Decidable

/-- The process whose page table the call takes down, the caller for `exec` and the child for
`wait`, `waitx` and `join`, has detached everything. -/
def State.TearsDetached (s : State) (p : Slot) : Call → Prop
  | .exec _ _ => s.Detached (s.proc p).pid
  | .wait _ => ∀ child, s.zombieChild p false = some child → s.Detached (s.proc child).pid
  | .waitx _ => ∀ child, s.zombieChild p false = some child → s.Detached (s.proc child).pid
  | .join => ∀ child, s.zombieChild p true = some child → s.Detached (s.proc child).pid
  | _ => True

instance (s : State) (p : Slot) : ∀ c, Decidable (s.TearsDetached p c)
  | .exec _ _ => inferInstanceAs (Decidable (s.Detached (s.proc p).pid))
  | .wait _ | .waitx _ | .join => inferInstanceAs (Decidable (∀ _, _ → State.Detached _ _))
  | .sbrk _ _ | .fork | .clone _ _ _ | .exit _ | .kill _ | .shmget _ _ | .shmattach _ | .shmdetach _
  | .fault _ => .isTrue trivial

def Call.isClone : Call → Bool
  | .clone _ _ _ => true
  | _ => false

section Conditions

variable {L R : Prop} {s : State} {p : Slot}

theorem State.Private.not_elsewhere (own : s.Private p low) (le : low ≤ v)
    (held : (s.proc p).heap v = some x) : ¬ s.Elsewhere p x := by
  rintro ⟨q, other, tracked, w, held'⟩
  have none := own q other tracked v (heap_eq_some.mp held).1 le w (heap_eq_some.mp held').1
    (held.trans held'.symm)
  rw [held] at none
  cases none

theorem State.Private.mine (own : s.Private p 0) (x : Nat) (maps : s.Maps p x) :
    ¬ s.Elsewhere p x := by
  obtain ⟨_, v, held⟩ := maps
  exact own.not_elsewhere (Nat.zero_le v) held

theorem Inv.private (inv : Inv L R s) (alone : L) (tracked : (s.proc p).Tracked) (low : Nat) :
    s.Private p low := by
  intro q other tracked' v _ _ w _ same
  cases held : (s.proc p).heap v with
  | none => rfl
  | some x =>
    rw [held] at same
    exact absurd (inv.apart alone ⟨tracked', w, same.symm⟩ ⟨tracked, v, held⟩) other

theorem State.Detached.not_attached (detached : s.Detached pid) : ¬ s.Attached pid v := by
  rintro ⟨row, i, entry, slot, present, _⟩
  rw [detached row slot i] at present
  cases present

theorem Inv.attached_of_leaf (inv : Inv L True s) (mapped : (s.proc p).leaf v = some pte)
    (high : npg (s.proc p).sz ≤ v) (small : v < trapframeVpn) : s.Attached (s.proc p).pid v := by
  obtain ⟨pt, table⟩ := Proc.table_of_leaf mapped
  rw [Proc.leaf_eq table] at mapped
  rcases (inv.shape table).leaf_cases mapped with low | ⟨inside, _⟩ | ⟨trap, _⟩
  · omega
  · exact inside trivial
  · unfold trampolineVpn at trap
    unfold trapframeVpn at small trap
    omega

theorem tracked_of_live {P : Proc} (live : P.state.live) : P.Tracked := by
  refine ⟨inUse_of_live live, fun thread => ?_⟩
  rw [thread.1] at live
  cases live

/-! ## The rule of a call -/

theorem Inv.execs (inv : Inv L R s) (tracked : (s.proc p).Tracked) (own : s.Private p 0)
    (memory : s.image p = some image) (effect : Execs image image' ok) :
    Inv L R (s.setImage p image') := by
  have good := inv.good tracked memory
  obtain ⟨table, size, _⟩ := State.image_some memory
  have good' : image.Good (s.around p) (fun v => R → s.Attached (s.proc p).pid v)
      (· ∈ s.segPages) (s.Elsewhere p) (s.Elsewhere p) := by
    refine ⟨good.owned.closer ?_, good.shape⟩
    intro v x held
    rw [← size, ← Proc.heap_eq table] at held
    exact own.mine x ⟨tracked, v, held⟩
  have kept := effect.good good'
  exact inv.setImage tracked.1 ⟨kept.owned.closer fun v x held apart =>
    kept.owned.own_apart held apart.2, kept.shape⟩

theorem Inv.breaks (inv : Inv L R s) (tracked : (s.proc p).Tracked)
    (own : s.FreesPrivate p (.sbrk n eager)) (clear : s.GrowsClear p (.sbrk n eager))
    (memory : s.image p = some image) (effect : Breaks n eager image image' ok) :
    Inv L R (s.setImage p image') := by
  obtain ⟨table, size, _⟩ := State.image_some memory
  refine inv.setImage tracked.1 (effect.good (fun x holds => holds.2) (inv.good tracked memory)
    (fun neg v pte low high mapped => ?_) fun isLazy nonneg v low high small => ?_)
  · rw [← size] at low high
    refine (own neg).not_elsewhere low ?_
    rw [Proc.heap_eq table]
    exact heap_eq_some.mpr ⟨high, pte, mapped, rfl⟩
  · subst isLazy
    rw [← size] at low high
    have := clear nonneg v high low small
    rwa [Proc.leaf_eq table] at this

/-- **Every call keeps the invariant**, if it respects the conditions. -/
theorem Effect.inv {s' : State} (effect : Effect s p c s' value) (inv : Inv L R s)
    (live : (s.proc p).state.live) (alone : L → c.isClone = false) (frees : s.FreesPrivate p c)
    (clear : s.GrowsClear p c) (room : R → s.HasRecord p c) : Inv L R s' := by
  have tracked := tracked_of_live live
  cases c with
  | fork => exact Spawns.inv effect inv (fun _ _ => rfl) (fun _ => rfl) tracked
  | clone fn arg stack => exact Spawns.inv effect inv (fun _ _ => rfl) alone tracked
  | exit status =>
    rw [effect.1]
    exact inv.exited tracked.1 status
  | wait addr | waitx addr =>
    exact Waits.inv effect inv tracked fun child found process => (frees child found process).mine
  | join =>
    refine Waits.inv effect inv tracked fun child found process => ?_
    have holds := List.find?_some found
    simp only [State.isChild, Bool.not_true, Bool.false_or, Bool.and_eq_true] at holds
    rw [holds.1.2] at process
    cases process
  | exec file argv =>
    obtain ⟨memory, done⟩ := effect
    exact inv.execs tracked frees memory done
  | sbrk n eager =>
    obtain ⟨memory, breaks⟩ := effect
    exact inv.breaks tracked frees clear memory breaks
  | kill pid => exact Kills.inv effect inv
  | shmget key size => exact Gets.inv effect inv
  | shmattach shmid => exact Attaches.inv effect inv tracked room
  | shmdetach addr => exact Detaches.inv effect inv tracked
  | fault va => exact Faults.inv effect inv tracked

/-- A call panics with "freewalk: leaf" only if it takes down a page table with something
attached. -/
theorem Inv.tears (inv : Inv L True s) (leaf : Panics s p c .freewalkLeaf) :
    ¬ s.TearsDetached p c := by
  have attached {q : Slot} (left : Leftover (s.proc q).leaf (npg (s.proc q).sz))
      (detached : s.Detached (s.proc q).pid) : False := by
    obtain ⟨v, pte, high, notTrapframe, notTrampoline, mapped⟩ := left
    obtain ⟨pt, table⟩ := Proc.table_of_leaf mapped
    rw [Proc.leaf_eq table] at mapped
    obtain ⟨w, inside⟩ := (inv.shape table).leftover
      ⟨v, pte, high, notTrapframe, notTrampoline, mapped⟩
    exact detached.not_attached (inside trivial)
  have reaps {threads : Bool} (reaps : s.ReapsLeftover p threads)
      (detached : ∀ child, s.zombieChild p threads = some child → s.Detached (s.proc child).pid) :
      False := by
    obtain ⟨child, found, left⟩ := reaps
    exact attached left (detached child found)
  intro detached
  cases c with
  | wait | waitx | join => exact reaps (leaf rfl) detached
  | exec => exact attached (leaf rfl) detached
  | fork | clone => rcases leaf with ⟨none, _⟩ | ⟨none, _⟩ <;> cases none
  | sbrk =>
    rcases leaf with none | none | ⟨_, _, _, _, _, ⟨none, _⟩ | ⟨none, _⟩⟩ <;> cases none
  | shmattach =>
    rcases leaf with none | ⟨_, _, _, _, _, _, _, _, ⟨none, _⟩ | ⟨none, _⟩⟩ <;> cases none
  | shmdetach => rcases leaf with none | none <;> cases none
  | exit | shmget => cases leaf
  | kill => exact leaf
  | fault => exact leaf.1 rfl

end Conditions

/-! ## Calls that leave shared memory alone -/

/-- The tables of `sysshm.c` are the same in both states. -/
def State.SameShm (s s' : State) : Prop :=
  s'.segtable = s.segtable ∧ s'.attachtable = s.attachtable

def Call.isShm : Call → Bool
  | .shmget _ _ | .shmattach _ | .shmdetach _ => true
  | _ => false

section Frame

variable {s : State} {p : Slot}

theorem Effect.sameShm (effect : Effect s p c s' value) (other : c.isShm = false) :
    s.SameShm s' := by
  cases c with
  | fork | clone | wait | waitx | join | exec | sbrk | kill | fault =>
    cases effect <;> exact ⟨rfl, rfl⟩
  | exit status =>
    rw [effect.1]
    exact ⟨rfl, rfl⟩
  | shmget | shmattach | shmdetach => cases other

end Frame

/-- Where a run starts: every user page is mapped by one process, there are no threads, and
nothing is attached. -/
structure Start (m : Machine) : Prop where
  running : m.panicked = none
  inv : Inv True True m.state
  detached : ∀ row i, m.state.attachtable row i = none

def system : Lts Machine Event := Lts.ofExec Start exec

theorem State.entered_of {P : Call → Prop} (s : State) (p : Slot) (exit : P (.exit (-1)))
    (call : P c) : P (s.entered p c) := by
  unfold State.entered
  split
  · exact exit
  · exact call

/-- A step is a call that returns, or one that panics. -/
theorem exec_cases (step : exec m (p, c) = some (m', value)) :
    m.panicked = none ∧ (m.state.proc p).state.live = true ∧
      ((call m.state p (m.state.entered p c) = .ok (some (m'.state, value)) ∧
          m'.panicked = none) ∨
        ∃ e, call m.state p (m.state.entered p c) = .error e ∧
          m' = { m with panicked := some e } ∧ value = none) := by
  unfold exec at step
  split at step
  · next enabled =>
    refine ⟨enabled.1, enabled.2, ?_⟩
    split at step
    · cases step
    · next s value' returned =>
      cases step
      exact .inl ⟨returned, rfl⟩
    · next e failed =>
      cases step
      exact .inr ⟨e, failed, rfl, rfl⟩
  · cases step

/-- A step that returns has the effect of its call, and one that panics has a reason. -/
theorem exec_effect (step : exec m (p, c) = some (m', value)) (blank : m.state.Blank)
    (sized : m.state.Sized) :
    (m.state.proc p).state.live = true ∧
      (m'.panicked = none ∧ Effect m.state p (m.state.entered p c) m'.state value ∨
        m'.state = m.state ∧ value = none ∧
          ∃ e, m'.panicked = some e ∧ Panics m.state p (m.state.entered p c) e) := by
  obtain ⟨_, live, ⟨returned, running⟩ | ⟨e, failed, rfl, none⟩⟩ := exec_cases step
  · have rule := call_ends blank sized live (m.state.entered p c)
    rw [returned] at rule
    exact ⟨live, .inl ⟨running, rule.value _ _ rfl⟩⟩
  · have rule := call_ends blank sized live (m.state.entered p c)
    rw [failed] at rule
    exact ⟨live, .inr ⟨rfl, none, e, rfl, rule.failure⟩⟩

/-- **One step keeps the invariant**, if its call respects the conditions. -/
theorem Inv.step {L R : Prop} (inv : Inv L R m.state) (step : exec m (p, c) = some (m', value))
    (alone : L → (m.state.entered p c).isClone = false)
    (frees : m.state.FreesPrivate p (m.state.entered p c))
    (clear : m.state.GrowsClear p (m.state.entered p c))
    (room : R → m.state.HasRecord p (m.state.entered p c)) : Inv L R m'.state := by
  obtain ⟨live, ⟨_, effect⟩ | ⟨same, _⟩⟩ := exec_effect step inv.blank inv.sized
  · exact effect.inv inv live alone frees clear room
  · rw [same]
    exact inv

theorem Inv.weaken {L L' R R' : Prop} (inv : Inv L R s) (fewerL : L' → L) (fewerR : R' → R) :
    Inv L' R' s :=
  ⟨inv.nodup, inv.outside, inv.inj, fun alone => inv.apart (fewerL alone),
    fun alone => inv.threads (fewerL alone),
    fun table => (inv.shape table).attached_mono (fun _ inside recorded => inside (fewerR recorded))
      fun _ shared => shared,
    inv.unused, inv.pid_lt, inv.pid_inj, inv.ranges, inv.segments⟩

/-- The call of a step makes no thread and respects the conditions. -/
def Careful (m : Machine) (l : Event) : Prop :=
  let c := m.state.entered l.1.1 l.1.2
  c.isClone = false ∧ m.state.FreesPrivate l.1.1 c ∧ m.state.GrowsClear l.1.1 c ∧
    m.state.HasRecord l.1.1 c
  deriving Decidable

theorem inv_of_careful (reach : system.ReachableWhen Careful m) : Inv True True m.state := by
  refine reach.invariant (P := fun m => Inv True True m.state) (fun m start => start.inv) ?_
  intro m ⟨⟨p, c⟩, value⟩ m' inv ⟨alone, frees, clear, room⟩ step
  exact inv.step step (fun _ => alone) frees clear fun _ => room

/-! ## Boot -/

/-- The memory after `kinit`, `procinit` and `shminit`. -/
def boot (free : List Nat) (first trampoline : Nat) : State where
  proc _ := {}
  kmem := { free := free, mem := fun _ _ => 0, first := first }
  nextpid := 1
  initproc := none
  segtable _ := none
  attachtable _ _ := none
  ticks := 0
  trampoline := trampoline

theorem boot_inv (nodup : free.Nodup) (first trampoline : Nat) :
    Inv True True (boot free first trampoline) := by
  have noMaps {q : Slot} {x : Nat} (maps : (boot free first trampoline).Maps q x) : False :=
    maps.1.1 rfl
  have sameOwned : (boot free first trampoline).owned = free := by
    simp [State.owned, State.segPages, Proc.kpages, boot]
  refine ⟨?_, ?_, ?_, ?_, ?_, ?_, ?_, ?_, ?_, ?_, ?_⟩
  · rw [sameOwned]
    exact Multiset.coe_nodup.mpr nodup
  · intro q x maps
    exact (noMaps maps).elim
  · intro q v w x tracked
    exact absurd rfl tracked.1
  · intro _ q r x maps
    exact (noMaps maps).elim
  · intro _ q
    rfl
  · intro q pt table
    cases table
  · intro q _
    exact ⟨rfl, rfl, rfl, rfl⟩
  · intro q used
    exact absurd rfl used
  · intro q r used
    exact absurd rfl used
  · intro row i entry present
    cases present
  · intro i seg present
    cases present

theorem userinit_ends (blank : s.Blank) :
    Ends (fun _ => True)
      (fun s' => ∃ np page pt k, s.unusedSlot = some np ∧
        page ::ₘ ((k.free : Multiset Nat) + pt.pages) = s.kmem.free ∧
        pt.lookup = newLeaf s.trampoline page ∧
        s' = { s.enter np { s.claim np with
          trapframe := some page, pagetable := some pt, state := .runnable } k with
          initproc := some np })
      (userinit s) := by
  unfold userinit allocproc
  split
  · exact .bind_ok rfl (.error trivial)
  rename_i np found
  refine ((allocprocAt_ends (blank np (State.unusedSlot_state found))).errors
    fun _ _ => trivial).bind ?_
  intro ⟨s', made⟩ allocated
  cases allocated with
  | undone => exact .error trivial
  | @made page pt k pages within leaf =>
    refine .ok ⟨np, page, pt, k, found, pages, leaf, ?_⟩
    rw [State.enter, State.set_proc_self, State.set_set]
    rfl

theorem boot_blank (free : List Nat) (first trampoline : Nat) :
    (boot free first trampoline).Blank :=
  fun _ _ => ⟨rfl, rfl, rfl, rfl⟩

theorem Inv.first {L R : Prop} (inv : Inv L R s) (found : s.unusedSlot = some np)
    (pages : page ::ₘ ((k.free : Multiset Nat) + pt.pages) = s.kmem.free)
    (leaf : pt.lookup = newLeaf s.trampoline page) :
    Inv L R (s.enter np { s.claim np with
      trapframe := some page, pagetable := some pt, state := .runnable } k) := by
  have empty := inv.blank np (State.unusedSlot_state found)
  have size : (s.claim np).sz = 0 := empty.2.2.1
  refine inv.enter ?_ (fun pt' table => ?_) rfl rfl fun _ => empty.2.2.2
  · have same : (k.free : Multiset Nat) + ({page} + pt.pages) + s.rest np = s.owned := by
      rw [State.owned_eq s np, ← pages, Proc.kpages_empty empty, ← Multiset.singleton_add]
      abel
    rw [Proc.kpages, Option.elim_some, Option.elim_some, same]
    refine .of_none inv.nodup inv.elsewhere_outside fun v => ?_
    rw [Proc.heap]
    rw [size, npg_zero, heap_zero]
  · cases table
    rw [size, leaf, npg_zero]
    exact .new s.trampoline page

theorem userinit_start (nodup : free.Nodup)
    (booted : userinit (boot free first trampoline) = .ok s) : Start { state := s } := by
  have rule := userinit_ends (boot_blank free first trampoline)
  rw [booted] at rule
  obtain ⟨np, page, pt, k, found, pages, leaf, rfl⟩ := rule.value
  have entered := (boot_inv nodup first trampoline).first found pages leaf
  refine ⟨rfl, ?_, fun _ _ => rfl⟩
  exact entered.same_memory rfl rfl rfl rfl (fun _ => .refl _) fun _ tracked => tracked

/-! ## Sample runs -/

/-- A program of one instruction, an `ecall`, in one loadable segment. -/
def sample : File where
  bytes :=
    -- the ELF header: one program header, at offset 64
    [0x7F, 0x45, 0x4C, 0x46] ++ List.replicate 12 0 ++ [2, 0, 0xF3, 0, 1, 0, 0, 0] ++
    List.replicate 8 0 ++ [64, 0, 0, 0, 0, 0, 0, 0] ++ List.replicate 16 0 ++ [1, 0] ++
    List.replicate 6 0 ++
    -- the program header: 4 bytes at offset 120, to be loaded at address 0
    [1, 0, 0, 0, 7, 0, 0, 0] ++ [120, 0, 0, 0, 0, 0, 0, 0] ++ List.replicate 16 0 ++
    [4, 0, 0, 0, 0, 0, 0, 0] ++ [4, 0, 0, 0, 0, 0, 0, 0] ++ List.replicate 8 0 ++
    [0x73, 0, 0, 0]
  length_le := by decide +kernel

/-- A small memory of 40 pages. -/
def smallBoot : State := boot ((List.range 40).map (0x80100 + ·)) 0x80100 0x80007

def small : Machine where
  state := match userinit smallBoot with
    | .ok s => s
    | .error _ => smallBoot

theorem small_made : userinit smallBoot = .ok small.state := by
  have booted : (userinit smallBoot).toOption.isSome = true := by decide +kernel
  unfold small
  cases made : userinit smallBoot with
  | ok s => rfl
  | error e =>
    rw [made] at booted
    cases booted

theorem small_start : Start small := userinit_start (by decide +kernel) small_made

/-- The first process runs a program, makes a segment and forks. -/
def startUp : List (Slot × Call) :=
  [(0, .exec (some sample) [[0x2F, 0x69]]), (0, .shmget 1 100), (0, .fork)]

def startUpRun : Option (Machine × Unit) :=
  Lts.replay exec Careful (fun h _ _ => h) startUp (small, ())

/-- The small memory with two processes and a segment. -/
def forked : Machine := (startUpRun.map (·.1)).getD small

theorem forked_start : Start forked := by
  have shown : startUpRun.map (fun x => (x.1.panicked.isNone,
      decide (∀ row i, x.1.state.attachtable row i = none))) = some (true, true) := by
    decide +kernel
  obtain ⟨x, run, facts⟩ := Option.map_eq_some_iff.mp shown
  simp only [Prod.mk.injEq, Option.isNone_iff_eq_none, decide_eq_true_eq] at facts
  have same : forked = x.1 := by
    unfold forked
    rw [run]
    rfl
  rw [same]
  exact ⟨facts.1, inv_of_careful (.of_run small_start run), facts.2⟩

end Xv6.Vm
