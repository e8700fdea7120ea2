import Xv6.Vm.Threads

/-!
# No page is lost

The pages of the system are the free ones, those the kernel keeps for processes and for
segments, and the user pages of processes. A thread's pages are those of the process that
has made it, and `freeproc` does not free them; so they are not counted again. `State.total`
is the multiset of all of these, and the calls keep it, as long as no thread gets or gives a
page of its own: the pages that a thread takes for itself, by `sbrk`, by a page fault or by
`exec`, are nobody's when it has been reaped.

The free list is a list beside the memory here, while `kalloc.c` links it through the free
pages. The two agree as long as nobody writes to a free page, so the result is about runs
that free no page which is still mapped elsewhere (`FreesOwnPages`).
-/

namespace Xv6.Vm

open Outcome

/-! ## Processes -/

def State.total (s : State) : Multiset Nat :=
  s.kmem.free + ∑ q, (s.proc q).pages + s.segPages

/-- The memory of the process is plain; a process structure that is not in use has none, and
one that is in use has a trapframe. -/
structure Proc.Tidy (P : Proc) : Prop where
  plain : ∀ pt, P.pagetable = some pt →
    Shape pt.lookup (npg P.sz) (fun _ => False) fun _ => False
  unused : P.state = .unused →
    P.pagetable = none ∧ P.trapframe = none ∧ P.sz = 0 ∧ P.isThread = false
  frame : P.state ≠ .unused → P.trapframe.isSome

def State.Tidy (s : State) : Prop := ∀ q, (s.proc q).Tidy

/-- The pages of an image, with the free ones, as they are counted. -/
def Image.counted (thread : Bool) (image : Image) : Multiset Nat :=
  image.kmem.free + image.pagetable.pages +
    if thread then 0 else userPages image.pagetable.lookup (npg image.sz)

section Processes

variable {s s' : State} {p : Slot}

theorem Image.counted_thread (image : Image) :
    image.counted true = image.kmem.free + image.pagetable.pages := add_zero _

def State.others (s : State) (p : Slot) : Multiset Nat :=
  ∑ q ∈ Finset.univ.erase p, (s.proc q).pages + s.segPages

theorem State.total_eq (s : State) (p : Slot) :
    s.total = s.kmem.free + (s.proc p).pages + s.others p := by
  unfold State.total State.others
  rw [← Finset.add_sum_erase _ _ (Finset.mem_univ p)]
  abel

theorem State.set_total (s : State) (p : Slot) (P : Proc) (k : Kmem) :
    (s.set p P k).total = k.free + P.pages + s.others p := by
  have others : (s.set p P k).others p = s.others p := by
    unfold State.others
    refine congrArg (· + s.segPages) (Finset.sum_congr rfl fun q mem => ?_)
    rw [State.set_proc_other s P k (Finset.ne_of_mem_erase mem)]
  rw [State.total_eq _ p, others, State.set_proc_self]
  rfl

theorem Proc.tidy_cleared (P : Proc) : P.cleared.Tidy :=
  ⟨fun _ table => (by cases table), fun _ => P.cleared_empty, fun inUse => absurd rfl inUse⟩

theorem State.tidy_set (others : ∀ q, q ≠ p → (s.proc q).Tidy) (own : P.Tidy) :
    (s.set p P k).Tidy := by
  intro q
  by_cases here : q = p
  · rw [here, State.set_proc_self]
    exact own
  · rw [State.set_proc_other s P k here]
    exact others q here

theorem State.Tidy.image (tidy : s.Tidy) {image : Image} (memory : s.image p = some image) :
    image.Plain := by
  obtain ⟨table, size, _⟩ := State.image_some memory
  have plain := (tidy p).plain _ table
  rw [size] at plain
  exact plain

theorem State.Tidy.blank (tidy : s.Tidy) : s.Blank := fun q unused => (tidy q).unused unused

theorem State.Tidy.sized (tidy : s.Tidy) : s.Sized := by
  intro q isSome
  obtain ⟨pt, table⟩ := Option.isSome_iff_exists.mp isSome
  exact ((tidy q).plain pt table).top_le

theorem State.setImage_total {image image' : Image} (memory : s.image p = some image)
    (same : image'.counted (s.proc p).isThread = image.counted (s.proc p).isThread) :
    (s.setImage p image').total = s.total := by
  obtain ⟨table, size, kmem⟩ := State.image_some memory
  unfold State.setImage
  rw [State.set_total, State.total_eq s p, Proc.pages_table table, Proc.pages_table rfl]
  dsimp only
  unfold Image.counted at same
  rw [size]
  have swap (a b c d e : Multiset Nat) : a + (b + c + d) + e = a + c + d + (b + e) := by abel
  rw [swap, swap, same, kmem]

theorem State.Tidy.setImage (tidy : s.Tidy) {image : Image} (inUse : (s.proc p).state ≠ .unused)
    (plain : image.Plain) : (s.setImage p image).Tidy := by
  refine State.tidy_set (fun q _ => tidy q) ⟨fun pt table => ?_, fun unused => absurd unused inUse,
    fun _ => (tidy p).frame inUse⟩
  cases table
  exact plain

theorem Proc.SameMemory.tidy {P P' : Proc} (same : P.SameMemory P') (tidy : P.Tidy) : P'.Tidy where
  plain pt table := by
    rw [same.table] at table
    rw [same.size]
    exact tidy.plain pt table
  unused unused := by
    rw [same.size, same.table, same.frame, same.thread]
    exact tidy.unused (same.unused.mp unused)
  frame inUse := by
    rw [same.frame]
    exact tidy.frame fun unused => inUse (same.unused.mpr unused)

theorem State.Tidy.same_memory (tidy : s.Tidy) (kmem : s'.kmem = s.kmem)
    (segs : s'.segtable = s.segtable) (memory : ∀ q, (s.proc q).SameMemory (s'.proc q)) :
    s'.Tidy ∧ s'.total = s.total := by
  refine ⟨fun q => (memory q).tidy (tidy q), ?_⟩
  unfold State.total State.segPages
  rw [kmem, segs, Finset.sum_congr rfl fun q _ => (memory q).pages]

end Processes

/-- The memory of all processes stays plain, and, where the condition holds, no page comes
or goes. -/
def State.Conserves (condition : Prop) (s s' : State) : Prop :=
  s'.Tidy ∧ (condition → s'.total = s.total)

section Calls

variable {s s' : State} {p : Slot}

/-- A call of `sbrk` for which no page is mapped and none is unmapped. -/
def SbrkIdle (leaf : Nat → Option Pte) (sz : Nat) (n : Int) (eager : Bool) : Prop :=
  if n < 0 then ∀ v < npg sz, npg (addSize sz n) ≤ v → leaf v = none
  else eager = true → npg (sz + n.toNat) ≤ npg sz

instance (leaf : Nat → Option Pte) (sz : Nat) (n : Int) (eager : Bool) :
    Decidable (SbrkIdle leaf sz n eager) :=
  inferInstanceAs (Decidable (ite _ _ _))

/-- What the call needs in order to conserve the pages: if the caller is a thread, it neither
takes nor frees a user page. -/
def State.TakesNothing (s : State) (p : Slot) : Call → Prop
  | .sbrk n eager =>
    (s.proc p).isThread = true → SbrkIdle (s.proc p).leaf (s.proc p).sz n eager
  | .exec _ _ => (s.proc p).isThread = false
  | .fault va => (s.proc p).isThread = true → va < (s.proc p).sz →
      ((s.proc p).leaf (va / PGSIZE)).isSome
  | .wait addr | .waitx addr => (s.proc p).isThread = true → addr ≠ 0 →
      Ready (s.proc p).leaf (s.proc p).sz addr 4
  | .fork | .clone _ _ _ | .exit _ | .join | .kill _ => True
  | .shmget _ _ | .shmattach _ | .shmdetach _ => False

theorem Spawns.total (effect : Spawns regs thread s p s' value)
    (keeps : ∀ frame k, (regs frame k).free = k.free) (tidy : s.Tidy) :
    s'.Tidy ∧ s'.total = s.total := by
  have entered {np : Slot} (found : s.unusedSlot = some np) {P : Proc} {k : Kmem}
      (own : P.Tidy) (sum : (k.free : Multiset Nat) + P.pages = s.kmem.free) :
      (s.enter np P k).Tidy ∧ (s.enter np P k).total = s.total := by
    refine ⟨State.tidy_set (fun q _ => tidy q) own, ?_⟩
    rw [State.enter, State.set_total, State.total_eq s np, sum,
      Proc.pages_empty (tidy.blank np (State.unusedSlot_state found)), add_zero]
    rfl
  cases effect with
  | full => exact ⟨tidy, rfl⟩
  | undone found restored =>
    refine entered found (Proc.tidy_cleared _) ?_
    rw [Proc.pages_empty (Proc.cleared_empty _), add_zero, restored.free]
  | @made np old new frame page k found table _ made =>
    have fits := tidy.sized p (by rw [table]; rfl)
    refine entered found ⟨fun pt same => ?_, by rintro ⟨⟩, fun _ => rfl⟩ ?_
    · cases same
      exact made.filled.shape fits
    · rw [keeps, Proc.pages_table rfl, ← made.pages, ← Multiset.singleton_add]
      have swap (a b c d : Multiset Nat) : a + (b + c + d) = b + (a + c + d) := by abel
      exact swap _ _ _ _

theorem Image.Touched.counted {image image' : Image} (touched : image.Touched image')
    (still : thread = true →
      image'.kmem.free + image'.pagetable.pages = (image.kmem.free : Multiset Nat) +
        image.pagetable.pages) : image'.counted thread = image.counted thread := by
  cases thread with
  | true =>
    rw [Image.counted_thread, Image.counted_thread]
    exact still rfl
  | false => exact touched.stock

theorem Waits.conserves {threads : Bool} (effect : Waits threads addr s p s' value)
    (tidy : s.Tidy) (inUse : (s.proc p).state ≠ .unused) :
    s.Conserves ((s.proc p).isThread = true → addr ≠ 0 →
      Ready (s.proc p).leaf (s.proc p).sz addr 4) s' := by
  have own {image image' : Image} (memory : s.image p = some image)
      (reported : Reported addr image image') :
      s.Conserves ((s.proc p).isThread = true → addr ≠ 0 →
        Ready (s.proc p).leaf (s.proc p).sz addr 4) (s.setImage p image') := by
    obtain ⟨table, size, _⟩ := State.image_some memory
    refine ⟨tidy.setImage inUse (reported.1.shape (tidy.image memory)), fun ready => ?_⟩
    refine State.setImage_total memory (reported.1.counted fun thread => ?_)
    rw [Proc.leaf_eq table, size] at ready
    obtain ⟨sameTable, sameFree⟩ := reported.2 (ready thread)
    rw [sameTable, sameFree]
  cases effect with
  | nothing => exact ⟨tidy, fun _ => rfl⟩
  | failed memory reported => exact own memory reported
  | @reaped child image image' k found other memory reported freed =>
    obtain ⟨tidy1, total1⟩ := own memory reported
    refine ⟨State.tidy_set (fun q _ => tidy1 q) (Proc.tidy_cleared _), fun ready => ?_⟩
    rw [← total1 ready, State.set_total, State.total_eq _ child, State.setImage_other _ other,
      Proc.pages_empty (Proc.cleared_empty _), freed.free, add_zero,
      add_comm (s.proc child).pages]
    rfl

theorem Breaks.conserves (effect : Breaks n eager image image' ok) (plain : image.Plain) :
    image'.Plain ∧ ((thread = true → SbrkIdle image.pagetable.lookup image.sz n eager) →
      image'.counted thread = image.counted thread) := by
  -- for a thread, the user pages have to stay the same ones
  have counted {image' : Image} (stock : image'.stock = image.stock)
      (user : SbrkIdle image.pagetable.lookup image.sz n eager →
        userPages image'.pagetable.lookup (npg image'.sz) =
          userPages image.pagetable.lookup (npg image.sz))
      (idle : thread = true → SbrkIdle image.pagetable.lookup image.sz n eager) :
      image'.counted thread = image.counted thread := by
    cases thread with
    | true =>
      rw [Image.counted_thread, Image.counted_thread]
      rw [Image.stock, Image.stock, Vm.stock, Vm.stock, user (idle rfl)] at stock
      exact add_right_cancel stock
    | false => exact stock
  cases effect with
  | refused | zero => exact ⟨plain, fun _ => rfl⟩
  | full _ _ moved leaf =>
    refine ⟨?_, counted moved.pages fun _ => by rw [leaf]⟩
    rw [Image.Plain, leaf]
    exact plain
  | grown isEager positive high drew laid =>
    have le : npg image.sz ≤ npg (image.sz + n.toNat) := npg_mono (Nat.le_add_right _ _)
    refine ⟨plain.below (npg_le (Nat.not_lt.mpr high)) le fun v above =>
      laid.outside v fun inside =>
      absurd inside.2 (Nat.not_lt.mpr above), counted drew.pages fun idle => ?_⟩
    unfold SbrkIdle at idle
    rw [if_neg (by omega)] at idle
    have same := Nat.le_antisymm (idle isEager) le
    dsimp only
    rw [same]
    exact userPages_congr fun v low => laid.outside v (by omega)
  | @shrunk pt k sz negative size moved cleared =>
    have below : npg sz ≤ npg image.sz := npg_mono (by omega)
    refine ⟨?_, counted moved.pages fun idle => ?_⟩
    · rw [Image.Plain, cleared]
      exact plain.lower below
    unfold SbrkIdle at idle
    rw [if_pos negative] at idle
    dsimp only
    rw [userPages_raise below fun v low high => ?_, cleared]
    · exact userPages_congr fun v low => if_neg (by omega)
    refine idle v high (Nat.le_trans (npg_mono ?_) low)
    by_cases smaller : addSize image.sz n ≤ sz
    · exact smaller
    · -- the size stays, and there is no page from `npg sz` on
      have : sz = image.sz := by omega
      rw [this] at low
      omega
  | lazily _ _ high =>
    have le : npg image.sz ≤ npg (image.sz + n.toNat) := npg_mono (Nat.le_add_right _ _)
    have top := npg_le (Nat.not_lt.mpr high)
    have user : userPages image.pagetable.lookup _ = _ := userPages_raise le fun v low high =>
      plain.unmapped low (Nat.lt_of_lt_of_le high top)
    refine ⟨plain.below top le fun _ _ => rfl, counted ?_ fun _ => user⟩
    unfold Image.stock Vm.stock
    dsimp only
    rw [user]

theorem Faults.conserves {va : Nat} (effect : Faults va s p s' value) (tidy : s.Tidy)
    (inUse : (s.proc p).state ≠ .unused) : s.Conserves (s.TakesNothing p (.fault va)) s' := by
  have own {image image' : Image} (memory : s.image p = some image) (touched : image.Touched image')
      (still : (va < image.sz → (image.pagetable.lookup (va / PGSIZE)).isSome) → image' = image) :
      s.Conserves (s.TakesNothing p (.fault va)) (s.setImage p image') := by
    obtain ⟨table, size, _⟩ := State.image_some memory
    refine ⟨tidy.setImage inUse (touched.shape (tidy.image memory)), fun idle => ?_⟩
    refine State.setImage_total memory (touched.counted fun thread => ?_)
    unfold State.TakesNothing at idle
    rw [Proc.leaf_eq table, size] at idle
    rw [still (idle thread)]
  cases effect with
  | served memory touched inside unmapped =>
    refine own memory touched fun mapped => ?_
    have there := mapped inside
    rw [unmapped] at there
    cases there
  | @killed image image' memory touched _ still =>
    obtain ⟨tidy1, total1⟩ := own memory touched still
    obtain ⟨tidy2, total2⟩ := tidy1.same_memory (by rfl) (by rfl) (State.killed_same inUse image')
    exact ⟨tidy2, fun idle => total2.trans (total1 idle)⟩

/-- Every call but those on segments keeps the memory of all processes plain, and conserves
the pages if it takes nothing for a thread. -/
theorem Effect.conserves {c : Call} (effect : Effect s p c s' value) (tidy : s.Tidy)
    (live : (s.proc p).state.live = true) (noSegment : c.isShm = false) :
    s.Conserves (s.TakesNothing p c) s' := by
  have inUse := inUse_of_live live
  have always {s' : State} (total : s'.Tidy ∧ s'.total = s.total) :
      s.Conserves (s.TakesNothing p c) s' := ⟨total.1, fun _ => total.2⟩
  cases c with
  | fork | clone => exact always (Spawns.total effect (fun _ _ => rfl) tidy)
  | exit status =>
    rw [effect.1]
    exact always (tidy.same_memory rfl rfl (State.exited_same inUse status))
  | wait addr | waitx addr => exact Waits.conserves effect tidy inUse
  | join =>
    obtain ⟨tidy', total⟩ := Waits.conserves effect tidy inUse
    exact ⟨tidy', fun _ => total fun _ nonzero => absurd rfl nonzero⟩
  | exec file argv =>
    obtain ⟨memory, stock, result⟩ := effect
    refine ⟨tidy.setImage inUse ?_, fun process =>
      State.setImage_total memory (process ▸ stock)⟩
    split at result
    · exact result
    · exact result.shape (tidy.image memory)
  | sbrk n eager =>
    obtain ⟨memory, breaks⟩ := effect
    obtain ⟨table, size, _⟩ := State.image_some memory
    obtain ⟨plain, counted⟩ := breaks.conserves (tidy.image memory)
    refine ⟨tidy.setImage inUse plain, fun idle => State.setImage_total memory (counted ?_)⟩
    unfold State.TakesNothing at idle
    rwa [Proc.leaf_eq table, size] at idle
  | kill pid =>
    refine always (tidy.same_memory ?_ ?_ (Kills.same effect))
    all_goals
      cases effect with
      | absent | found => rfl
  | shmget | shmattach | shmdetach => cases noSegment
  | fault va => exact Faults.conserves effect tidy inUse

end Calls

/-- The system after boot. -/
def Booted (m : Machine) : Prop :=
  m.panicked = none ∧ ∃ free first trampoline, userinit (boot free first trampoline) = .ok m.state

def booted : Lts Machine Event := Lts.ofExec Booted exec

def runFrom (m : Machine) : Lts Machine Event := Lts.ofExec (· = m) exec

/-- There is only the process `p`. -/
def State.Alone (s : State) (p : Slot) : Prop :=
  (s.proc p).state.live = true ∧ (s.proc p).isThread = false ∧
    ∀ q, q ≠ p → (s.proc q).state = .unused
  deriving Decidable

/-- Process `p` is the only one in both states, with the same size and mapped pages. -/
structure SameProcess (s s' : State) (p : Slot) : Prop where
  before : s.Alone p
  after : s'.Alone p
  pid : (s'.proc p).pid = (s.proc p).pid
  size : (s'.proc p).sz = (s.proc p).sz
  mapped : ∀ v < npg (s.proc p).sz, ((s'.proc p).leaf v).isSome = ((s.proc p).leaf v).isSome

instance (s s' : State) (p : Slot) : Decidable (SameProcess s s' p) :=
  decidable_of_iff (s.Alone p ∧ s'.Alone p ∧ (s'.proc p).pid = (s.proc p).pid ∧
      (s'.proc p).sz = (s.proc p).sz ∧
      ∀ v < npg (s.proc p).sz, ((s'.proc p).leaf v).isSome = ((s.proc p).leaf v).isSome)
    ⟨fun ⟨before, after, pid, size, mapped⟩ => ⟨before, after, pid, size, mapped⟩,
      fun ⟨before, after, pid, size, mapped⟩ => ⟨before, after, pid, size, mapped⟩⟩

/-- How many pages the page table of the process takes. -/
def Proc.tablePages (P : Proc) : Nat := (P.pagetable.elim 0 PageTable.pages).card

/-- If the same process is left, there are as many free pages as before, up to those of its
page table. -/
def LeaksNothing (m m' : Machine) : Prop :=
  ∀ p, SameProcess m.state m'.state p →
    m'.state.kmem.free.length + (m'.state.proc p).tablePages =
      m.state.kmem.free.length + (m.state.proc p).tablePages

/-- The calls that make processes and threads, change their memory, and end and reap them. -/
def Call.isProcRun : Call → Bool
  | .fork | .clone _ _ _ | .sbrk _ _ | .fault _ | .exec _ _ | .exit _ | .wait _ | .join => true
  | _ => false

theorem small_booted : Booted small := ⟨rfl, _, _, _, small_made⟩

def loadRun : Option (Machine × Unit) :=
  Lts.replay exec FreesOwnPages (fun h _ _ => h)
    [(0, .exec (some sample) [[0x2F, 0x69]])] (small, ())

/-- The small memory with one process, which has loaded a program. -/
def loaded : Machine := (loadRun.map (·.1)).getD small

theorem loaded_reachable : booted.ReachableWhen FreesOwnPages loaded := by
  have shown : loadRun.isSome = true := by decide +kernel
  obtain ⟨x, run⟩ := Option.isSome_iff_exists.mp shown
  have same : loaded = x.1 := by
    unfold loaded
    rw [run]
    rfl
  rw [same]
  exact .of_run small_booted run

/-- A thread grows by a page and exits. The page is in the thread's table only, and
`proc_freepagetable_thread` does not free it. -/
def threadGrows : List (Slot × Call) :=
  [(0, .clone 0 0 0), (1, .sbrk 4096 true), (1, .exit 0), (0, .join)]

theorem thread_loses_page :
    ¬ ∀ m m', booted.ReachableWhen (fun _ l => l.1.2.isShm = false) m →
      (runFrom m).ReachableWhen (fun _ l => l.1.2.isProcRun = true) m' → LeaksNothing m m' := by
  intro never
  obtain ⟨m, reach, same, lost⟩ : ∃ m,
      (runFrom loaded).ReachableWhen (fun _ l => l.1.2.isProcRun = true) m ∧
      SameProcess loaded.state m.state 0 ∧ m.state.kmem.free.length + (m.state.proc 0).tablePages ≠
        loaded.state.kmem.free.length + (loaded.state.proc 0).tablePages :=
    Lts.exists_of_run rfl threadGrows (by decide +kernel)
  exact lost (never loaded m (loaded_reachable.imp fun _ _ frees => frees.1) reach 0 same)

instance (s : State) (p : Slot) : ∀ c, Decidable (s.TakesNothing p c)
  | .sbrk _ _ => inferInstanceAs (Decidable (_ → SbrkIdle _ _ _ _))
  | .exec _ _ => inferInstanceAs (Decidable (_ = _))
  | .fault _ => inferInstanceAs (Decidable (_ → _ → Option.isSome _))
  | .wait _ | .waitx _ => inferInstanceAs (Decidable (_ → _ → ∀ _ < _, _ → _ → Option.isSome _))
  | .fork | .clone _ _ _ | .exit _ | .join | .kill _ => .isTrue trivial
  | .shmget _ _ | .shmattach _ | .shmdetach _ => .isFalse id

/-- The call frees no page that is mapped elsewhere, and takes none for a thread. -/
def TakesNothing (m : Machine) (l : Event) : Prop :=
  FreesOwnPages m l ∧ m.state.TakesNothing l.1.1 (m.state.entered l.1.1 l.1.2)

instance (m : Machine) (l : Event) : Decidable (TakesNothing m l) :=
  inferInstanceAs (Decidable (_ ∧ _))

section Runs

variable {s s' : State} {p : Slot} {m m' : Machine}

theorem userinit_tidy (free : List Nat) (first trampoline : Nat) :
    Ends (fun _ => True) State.Tidy (userinit (boot free first trampoline)) := by
  apply (userinit_ends (boot_blank free first trampoline)).imp
  rintro s' ⟨np, page, pt, k, _, _, leaf, rfl⟩
  refine State.tidy_set (k := k)
    (fun q _ => ⟨nofun, fun _ => ⟨rfl, rfl, rfl, rfl⟩, fun inUse => absurd rfl inUse⟩)
    ⟨fun pt' same => ?_, nofun, fun _ => rfl⟩
  cases same
  rw [leaf]
  have size : npg ((boot free first trampoline).claim np).sz = 0 := npg_zero
  dsimp only
  rw [size]
  exact Shape.new _ _

theorem tidy_of_booted (reach : booted.ReachableWhen (fun _ l => l.1.2.isShm = false) m) :
    m.state.Tidy := by
  refine reach.invariant (P := fun m => m.state.Tidy) ?_ ?_
  · intro m ⟨_, free, first, trampoline, started⟩
    have tidy := userinit_tidy free first trampoline
    rw [started] at tidy
    exact tidy.value
  intro m ⟨⟨p, c⟩, value⟩ m' tidy noSegment step
  obtain ⟨live, ⟨_, effect⟩ | ⟨same, _⟩⟩ := exec_effect step tidy.blank tidy.sized
  · exact (effect.conserves tidy live (m.state.entered_of (P := (Call.isShm · = false)) p rfl
      noSegment)).1
  · exact same ▸ tidy

theorem total_of_takesNothing (tidy : m.state.Tidy)
    (run : (runFrom m).ReachableWhen TakesNothing m') :
    m'.state.Tidy ∧ m'.state.total = m.state.total ∧ m'.state.segtable = m.state.segtable := by
  refine run.invariant (P := fun m' => m'.state.Tidy ∧ m'.state.total = m.state.total ∧
    m'.state.segtable = m.state.segtable) ?_ ?_
  · intro m' start
    cases start
    exact ⟨tidy, rfl, rfl⟩
  intro m1 ⟨⟨p, c⟩, value⟩ m2 ⟨tidy1, same1, segs1⟩ ⟨frees, idle⟩ step
  obtain ⟨live, ⟨_, effect⟩ | ⟨same, _⟩⟩ := exec_effect step tidy1.blank tidy1.sized
  · have noSegment := m1.state.entered_of (P := (Call.isShm · = false)) p rfl frees.1
    obtain ⟨tidy2, same2⟩ := effect.conserves tidy1 live noSegment
    exact ⟨tidy2, (same2 idle).trans same1, (effect.sameShm noSegment).1.trans segs1⟩
  · rw [same]
    exact ⟨tidy1, same1, segs1⟩

theorem userPages_card (same : ∀ v < top, (leaf' v).isSome = (leaf v).isSome) :
    (userPages leaf' top).card = (userPages leaf top).card := by
  unfold userPages
  rw [Multiset.card_sum, Multiset.card_sum]
  refine Finset.sum_congr rfl fun v mem => ?_
  have here := same v (Finset.mem_range.mp mem)
  cases one : leaf v with
  | none =>
    rw [one] at here
    rw [Option.isSome_eq_false_iff.mp here |> Option.isNone_iff_eq_none.mp]
  | some pte =>
    rw [one] at here
    obtain ⟨pte', other⟩ := Option.isSome_iff_exists.mp here
    rw [other]
    rfl

theorem State.Alone.card_total (alone : s.Alone p) (tidy : s.Tidy) :
    s.total.card = s.kmem.free.length + (s.proc p).tablePages +
      (1 + (userPages (s.proc p).leaf (npg (s.proc p).sz)).card + s.segPages.card) := by
  obtain ⟨live, process, others⟩ := alone
  obtain ⟨page, frame⟩ := Option.isSome_iff_exists.mp ((tidy p).frame (tracked_of_live live).1)
  have none : s.others p = s.segPages := by
    unfold State.others
    rw [Finset.sum_eq_zero fun q mem => ?_, zero_add]
    exact Proc.pages_empty ((tidy q).unused (others q (Finset.ne_of_mem_erase mem)))
  rw [State.total_eq s p, none]
  unfold Proc.pages Proc.kpages Proc.tablePages
  rw [process, frame]
  simp only [Multiset.card_add, Multiset.coe_card, Option.elim_some, Multiset.card_singleton,
    Bool.false_eq_true, if_false]
  omega

/-- **No memory is lost** in any run that frees no page still mapped elsewhere and in which no
thread takes or frees a user page. -/
theorem leaksNothing_of_takesNothing (start : booted.ReachableWhen FreesOwnPages m)
    (run : (runFrom m).ReachableWhen TakesNothing m') : LeaksNothing m m' := by
  intro p same
  have tidy := tidy_of_booted (start.imp fun _ _ frees => frees.1)
  obtain ⟨tidy', total, segs⟩ := total_of_takesNothing tidy run
  have card := congrArg Multiset.card total
  have user := userPages_card same.mapped
  have segments : m'.state.segPages = m.state.segPages := by
    unfold State.segPages
    rw [segs]
  rw [same.after.card_total tidy', same.before.card_total tidy, same.size, user, segments] at card
  omega

end Runs

/-- A thread grows and exits without having touched what it got; a child process grows, faults
a page in, and exits. -/
theorem leaksNothing_reaped : ∃ m', (runFrom loaded).ReachableWhen TakesNothing m' ∧
    SameProcess loaded.state m'.state 0 ∧ LeaksNothing loaded m' := by
  obtain ⟨m, reach, same⟩ : ∃ m, (runFrom loaded).ReachableWhen TakesNothing m ∧
      SameProcess loaded.state m.state 0 :=
    Lts.exists_of_run rfl [(0, .clone 0 0 0), (1, .sbrk 4096 false), (1, .exit 0), (0, .join),
      (0, .fork), (1, .sbrk 8192 false), (1, .fault 12288), (1, .exit 0), (0, .wait 0)]
      (by decide +kernel)
  exact ⟨m, reach, same, leaksNothing_of_takesNothing loaded_reachable reach⟩

end Xv6.Vm
