import Xv6.Wait.Kill

/-!
# A slot that is used again

`allocproc` gives a slot its pid, its trapframe and its page table, and leaves the other fields
as they are. That they are null is what `kexit` and `freeproc` together see to: `kexit`
closes the files and puts the directory before the process becomes a zombie, and `freeproc`
clears the rest, also of a slot that `allocproc`, `kfork` or `kclone` has set up half.

`Table` is the process table of `Xv6.Wait` with the memory, the files and the directory of each
slot, as pointers.
-/

namespace Xv6.Wait

open Function

def NOFILE : Nat := 16

instance : NeZero NOFILE := ⟨by decide⟩

/-- The fields of `struct proc` that say what the process holds; a null pointer is `none`. -/
structure Hold where
  trapframe : Option Nat := none
  pagetable : Option Nat := none
  sz : Nat := 0
  ofile : Fin NOFILE → Option Nat := fun _ => none
  cwd : Option Nat := none

/-- What `freeproc` clears of them. -/
def Hold.freed (h : Hold) : Hold := { h with trapframe := none, pagetable := none, sz := 0 }

/-- What `kexit` clears before it acquires `wait_lock`. -/
def Hold.closed (h : Hold) : Hold := { h with ofile := fun _ => none, cwd := none }

/-- What there is no memory for: the trapframe, the page table, or what `uvmcopy` and `uvmshare`
need. -/
inductive Short
  | trapframe | pagetable | user

/-- The pages that a child gets, and what is short, if anything. -/
structure Supply where
  trapframe : Nat
  pagetable : Nat
  short : Option Short

/-- `allocproc` in a slot, and `kfork` or `kclone` of `parent` up to the release of its lock. Each
of the three failures calls `freeproc`. -/
def Hold.alloc (h parent : Hold) (m : Supply) : Hold :=
  match m.short with
  | some .trapframe => { h with trapframe := none }.freed
  | some .pagetable => { h with trapframe := some m.trapframe, pagetable := none }.freed
  | some .user => { h with trapframe := some m.trapframe, pagetable := some m.pagetable }.freed
  | none =>
    { trapframe := some m.trapframe
      pagetable := some m.pagetable
      sz := parent.sz
      ofile := fun fd => if (parent.ofile fd).isSome then parent.ofile fd else h.ofile fd
      cwd := parent.cwd }

/-- What a process changes of its own: `exec` and `sbrk`, `open` and `close`, `chdir`. -/
inductive Change
  | memory (pagetable sz : Nat)
  | file (fd : Fin NOFILE) (f : Option Nat)
  | chdir (ip : Nat)

def Hold.change (h : Hold) : Change → Hold
  | .memory pagetable sz => { h with pagetable := some pagetable, sz := sz }
  | .file fd f => { h with ofile := update h.ofile fd f }
  | .chdir ip => { h with cwd := some ip }

structure Table where
  core : State
  hold : Slot → Hold

/-- What the steps of `Xv6.Wait` do to what the slots hold. -/
def runHold (s : State) (p : Slot) (m : Supply) (e : Option Effect) (hold : Slot → Hold)
    (q : Slot) : Hold :=
  match e, s.pc p with
  | some (.reaped child _ _ _), _ => if q = child then (hold q).freed else hold q
  | _, .allocproc _ j =>
    if q.val = j ∧ (s.procs q).state = .unused then (hold q).alloc (hold p) m else hold q
  | _, .exiting _ => if q = p then (hold q).closed else hold q
  | _, _ => hold q

inductive Move
  /-- `p` runs to its next lock operation. If something is short, `copyout` fails too. -/
  | run (p : Slot) (m : Supply)
  | act (a : Action)
  /-- `p` is outside the calls of `proc.c`. -/
  | own (p : Slot) (c : Change)

def Table.exec (t : Table) : Move → Option (Table × Option Effect)
  | .run p m => (Wait.exec t.core (.run p m.short.isNone)).map fun (s, e) =>
      ({ core := s, hold := runHold t.core p m e t.hold }, e)
  | .act (.run _ _) => none
  | .act a => (Wait.exec t.core a).map fun (s, e) => ({ t with core := s }, e)
  | .own p c =>
    if (t.core.procs p).state = .running ∧ t.core.pc p = .user then
      some ({ t with hold := update t.hold p ((t.hold p).change c) }, none)
    else none

/-- After `userinit`, with the pages and the root directory of `initproc`. -/
def started (trapframe pagetable root : Nat) : Table where
  core := boot
  hold p := if p = initproc then
      { trapframe := some trapframe, pagetable := some pagetable, cwd := some root }
    else {}

def table : Lts Table (Move × Option Effect) :=
  Lts.ofExec (fun t => ∃ trapframe pagetable root, t = started trapframe pagetable root) Table.exec

/-! ## What is left of a process -/

/-- The process has no files and no directory any more. -/
structure Hold.Shut (h : Hold) : Prop where
  cwd : h.cwd = none
  ofile : ∀ fd, h.ofile fd = none

/-- Nothing is left of the process that was in the slot. -/
structure Vacant (P : Proc) (h : Hold) : Prop extends h.Shut where
  isThread : P.isThread = false
  parent : P.parent = none
  chan : P.chan = none
  sz : h.sz = 0
  pagetable : h.pagetable = none
  trapframe : h.trapframe = none

/-- Program points of `kexit` after it has closed the files. -/
def Pc.leaves : Pc → Bool
  | .reparent _ _ | .wakeup _ _ _ _ | .zombify _ | .zombieHeld | .zombieFree => true
  | _ => false

/-- What slot `q` may hold. -/
structure Left (s : State) (q : Slot) (h : Hold) : Prop where
  vacant : (s.procs q).state = .unused → Vacant (s.procs q) h
  shut : (s.pc q).leaves = true ∨ (s.procs q).state = .zombie → h.Shut

theorem Vacant.of_cleared (P : Proc) {h : Hold} (shut : h.Shut) : Vacant P.cleared h.freed :=
  ⟨⟨shut.cwd, shut.ofile⟩, rfl, rfl, rfl, rfl, rfl, rfl⟩

theorem Vacant.alloc_failed (vacant : Vacant P h) (parent : Hold)
    (failed : m.short.isNone = false) (P' : Proc) : Vacant P'.cleared (h.alloc parent m) := by
  unfold Hold.alloc
  split
  case h_4 none =>
    rw [none] at failed
    cases failed
  all_goals exact .of_cleared P' ⟨vacant.cwd, vacant.ofile⟩

theorem Vacant.alloc (vacant : Vacant P h) (parent : Hold) (enough : m.short = none) :
    (h.alloc parent m).ofile = parent.ofile ∧ (h.alloc parent m).cwd = parent.cwd := by
  unfold Hold.alloc
  rw [enough]
  refine ⟨?_, rfl⟩
  funext fd
  dsimp only
  split
  · rfl
  · next closed =>
    rw [vacant.ofile fd]
    exact (Option.not_isSome_iff_eq_none.mp closed).symm

variable {s s' : State} {p q : Slot} {e : Option Effect} {l : Label} {t : Table} {h : Hold}

attribute [local grind =] Pc.leaves Pc.creates Proc.wakeup_state State.newProc Proc.cleared
  Proc.kill

theorem Vacant.step (sound : Sound s) (step : Step s l s') (vacant : Vacant (s.procs q) h)
    (was : (s.procs q).state = .unused) (unused : (s'.procs q).state = .unused) :
    Vacant (s'.procs q) h := by
  obtain ⟨r, new, turn, procs⟩ := step.turns
  generalize s'.nextpid = nextpid at turn
  rw [procs] at unused ⊢
  by_cases here : q = r
  · subst here
    rw [update_self] at unused ⊢
    cases turn with
    | same => exact vacant
    | undone | freed => exact { vacant with isThread := rfl, parent := rfl, chan := rfl }
    | named point =>
      rw [sound.child _ q (by rw [point]; rfl)] at was
      cases was
    | adopted child =>
      rw [vacant.parent] at child
      cases child
    | woken =>
      rw [Proc.wakeup, if_neg (by rw [was]; simp)]
      exact vacant
    | killed => exact { vacant with }
    | ran _ inUse => exact absurd unused inUse
    | taken | started => cases unused
  · rw [update_of_ne here]
    exact vacant

theorem Step.unused_from (sound : Sound s) (step : Step s l s')
    (unused : (s'.procs q).state = .unused) :
    (s.procs q).state = .unused ∨ ∃ pid p times, l.2 = some (.reaped q pid p times) := by
  have child := sound.child
  cases step with
  | run onCpu step =>
    cases step with
    | @reaped _ r _ _ _ _ _ =>
      by_cases here : q = r
      · subst here
        exact .inr ⟨_, _, _, rfl⟩
      · grind
    | _ => grind
  | _ => grind

theorem Step.leaves_from (sound : Sound s) (step : Step s l s')
    (leaves : (s'.pc q).leaves = true ∨ (s'.procs q).state = .zombie) :
    ((s.pc q).leaves = true ∨ (s.procs q).state = .zombie) ∨
      ∃ status ok, s.pc q = .exiting status ∧ l.1 = .run q ok := by
  have child := sound.child
  cases step with
  | @run p ok _ _ onCpu step =>
    cases step with
    | @lock pc' spins _ =>
      by_cases exiting : ∃ status, s.pc p = .exiting status
      · obtain ⟨status, point⟩ := exiting
        by_cases here : q = p
        · subst here
          exact .inr ⟨status, ok, point, rfl⟩
        · grind
      · unfold Pc.spins at spins
        grind
    | @wakeupDone _ _ child => cases child <;> grind [Pc.afterWakeup]
    | _ => grind
  | @enter p c pc _ _ entry => cases c <;> grind [Wait.enter]
  | @block p addr pc _ entry =>
    obtain ⟨⟨x, rfl⟩, -⟩ := Pc.of_block entry
    grind
  | _ => grind

theorem Left.step (left : Left s q h) (sound : Sound s) (step : Step s l s')
    (reaps : ∀ pid p times, l.2 ≠ some (.reaped q pid p times))
    (closes : ∀ status ok, s.pc q = .exiting status → l.1 ≠ .run q ok) : Left s' q h where
  vacant now := by
    have was := (step.unused_from sound now).resolve_right fun ⟨_, _, _, reaped⟩ =>
        reaps _ _ _ reaped
    exact (left.vacant was).step sound step was now
  shut now := left.shut ((step.leaves_from sound now).resolve_right fun ⟨_, _, at_, ran⟩ =>
    closes _ _ at_ ran)

/-- `allocproc` at a slot that is not in use: the slot is in use afterwards, or is cleared again. -/
theorem exec_allocproc (sound : Sound s) (run : Wait.exec s (.run p ok) = some (s', e))
    (point : s.pc p = .allocproc thread q.val) (unused : (s.procs q).state = .unused) :
    (s'.pc q).leaves = false ∧
      (ok = true ∧ e = none ∧ s'.procs q = s.newProc q thread ∨
        ok = false ∧ s'.procs q = (s.newProc q thread).cleared) := by
  have idle := sound.idle q (.inl unused)
  have other : q ≠ p := by
    rintro rfl
    rw [point] at idle
    rcases idle with at_ | at_ <;> cases at_
  simp only [Wait.exec, runProc, point, dif_pos q.isLt, Fin.eta, if_pos unused] at run
  split at run
  · split at run
    · cases run
    unfold allocBody at run
    split at run
    · next enough =>
      cases run
      simp [State.setProc, State.setPc, State.countPid, other, enough, Pc.leaves]
    · next failed =>
      cases run
      have still : (s.pc q).leaves = false := by
        rcases idle with at_ | at_ <;> rw [at_] <;> rfl
      simp [State.setProc, State.setPc, State.countPid, other, failed, still]
  · cases run

theorem Step.reaped_frees {times : Option (UInt32 × UInt32)}
    (step : Step s (.run p ok, some (.reaped q pid r times)) s') :
    (s.procs q).state = .zombie ∧ s'.procs q = (s.procs q).cleared ∧
      ∀ status, s.pc p ≠ .exiting status := by
  cases step with
  | run onCpu step =>
    cases step with
    | reaped point _ zombie _ =>
      refine ⟨zombie, update_self .., fun status at_ => ?_⟩
      rw [point] at at_
      cases at_

/-- Every slot holds what it may. -/
def AllLeft (t : Table) : Prop := Sound t.core ∧ ∀ q, Left t.core q (t.hold q)

theorem AllLeft.run (all : AllLeft t)
    (run : Wait.exec t.core (.run p m.short.isNone) = some (s', e)) (q : Slot) :
    Left s' q (runHold t.core p m e t.hold q) := by
  obtain ⟨sound, left⟩ := all
  have step : Step t.core (.run p m.short.isNone, e) s' := .of_exec run
  -- a slot that is not reaped, if its process does not close its files in this step
  have same (quiet : ∀ pid p times, e ≠ some (.reaped q pid p times))
      (other : ∀ status, t.core.pc p = .exiting status → q ≠ p) : Left s' q (t.hold q) := by
    refine (left q).step sound step quiet fun status ok at_ ran => ?_
    cases ran
    exact other status at_ rfl
  unfold runHold
  split
  · next r pid _ times =>
    obtain ⟨zombie, procs, notExit⟩ := step.reaped_frees
    split
    · next here =>
      subst here
      have shut := (left q).shut (.inr zombie)
      refine ⟨fun _ => ?_, fun _ => ⟨shut.cwd, shut.ofile⟩⟩
      rw [procs]
      exact .of_cleared _ shut
    · next other =>
      refine same (fun _ _ _ reaped => other (by cases reaped; rfl)) fun status at_ =>
        (notExit status at_).elim
  · next thread j quiet point =>
    split
    · next here =>
      obtain ⟨rfl, unused⟩ := here
      obtain ⟨stays, made⟩ := exec_allocproc sound run point unused
      refine ⟨fun now => ?_, fun now => ?_⟩
      · rcases made with ⟨_, _, procs⟩ | ⟨failed, procs⟩
        · rw [procs] at now
          cases now
        · rw [procs]
          exact ((left _).vacant unused).alloc_failed _ failed _
      · rcases now with now | now
        · rw [stays] at now
          cases now
        · rcases made with ⟨_, _, procs⟩ | ⟨_, procs⟩ <;> rw [procs] at now <;> cases now
    · exact same (quiet q) fun status at_ => (by rw [point] at at_; cases at_)
  · next status quiet point =>
    split
    · next here =>
      subst here
      refine ⟨fun now => ?_, fun _ => ⟨rfl, fun _ => rfl⟩⟩
      rcases step.unused_from sound now with was | ⟨pid, r, times, reaped⟩
      · rcases sound.idle q (.inl was) with at_ | at_ <;> rw [point] at at_ <;> cases at_
      · exact (quiet q pid r times reaped).elim
    · next other => exact same (quiet q) fun _ _ => other
  · next quiet notAlloc notExit => exact same (quiet q) fun status at_ => (notExit status at_).elim

theorem AllLeft.step (all : AllLeft t) (step : t.exec move = some (t', e)) : AllLeft t' := by
  obtain ⟨sound, left⟩ := all
  cases move with
  | run p m =>
    obtain ⟨⟨s', e'⟩, run, ⟨⟩⟩ := Option.map_eq_some_iff.mp step
    exact ⟨Step.sound sound (l := (_, e)) (.of_exec run), AllLeft.run ⟨sound, left⟩ run⟩
  | act a =>
    have core : (∀ p ok, a ≠ .run p ok) ∧ ∃ s', Wait.exec t.core a = some (s', e) ∧
        t' = { t with core := s' } := by
      cases a <;> simp only [Table.exec, Option.map_eq_some_iff, reduceCtorEq] at step
      all_goals
        obtain ⟨⟨s', e'⟩, run, same⟩ := step
        cases same
        exact ⟨nofun, s', run, rfl⟩
    obtain ⟨notRun, s', run, rfl⟩ := core
    have core : Step t.core (a, e) s' := .of_exec run
    refine ⟨core.sound sound, fun q => (left q).step sound core (fun _ _ _ reaped => ?_)
      fun status ok _ ran => notRun q ok ran⟩
    cases core with
    | run => exact notRun _ _ rfl
    | _ => cases reaped
  | own p c =>
    simp only [Table.exec] at step
    split at step
    · next running =>
      cases step
      refine ⟨sound, fun q => ?_⟩
      dsimp only
      by_cases here : q = p
      · subst here
        refine ⟨fun now => ?_, fun now => ?_⟩
        · rw [running.1] at now
          cases now
        · rw [running.1, running.2] at now
          rcases now with now | now <;> cases now
      · rw [update_of_ne here]
        exact left q
    · cases step

theorem left_of_reachable (reach : table.Reachable t) : AllLeft t := by
  refine reach.invariant (P := AllLeft) ?_ fun t l t' all step => all.step step
  rintro _ ⟨trapframe, pagetable, root, rfl⟩
  refine ⟨sound_boot, fun q => ?_⟩
  unfold started
  dsimp only
  by_cases first : q = initproc
  · subst first
    exact ⟨nofun, fun now => by rcases now with now | now <;> cases now⟩
  · rw [if_neg first]
    refine ⟨fun _ => ?_, fun _ => ⟨rfl, fun _ => rfl⟩⟩
    have empty : boot.procs q = {} := if_neg first
    rw [empty]
    exact ⟨⟨rfl, fun _ => rfl⟩, rfl, rfl, rfl, rfl, rfl, rfl⟩

theorem Turn.isThread (turn : Turn s q new nextpid) (was : (s.procs q).state ≠ .unused)
    (inUse : new.state ≠ .unused) : new.isThread = (s.procs q).isThread := by
  cases turn with
  | taken unused | undone unused => exact absurd unused was
  | freed => exact absurd rfl inUse
  | woken => exact Proc.wakeup_isThread _ _
  | ran _ _ _ _ thread => exact thread
  | _ => rfl

/-- **A slot that is used again carries nothing over**, in any interleaving of any processes: it
is empty while it is not in use, so that a child made by `kfork` there is a process with the
files of its parent, and stays one until it is freed. -/
theorem reused_slot_is_vacant (reach : table.Reachable t) :
    (∀ q, (t.core.procs q).state = .unused → Vacant (t.core.procs q) (t.hold q)) ∧
    (∀ p q m t' e, t.core.pc p = .allocproc false q.val → (t.core.procs q).state = .unused →
      m.short = none → t.exec (.run p m) = some (t', e) →
      (t'.core.procs q).isThread = false ∧ (t'.hold q).ofile = (t.hold p).ofile ∧
        (t'.hold q).cwd = (t.hold p).cwd) ∧
    ∀ q a s' e, Wait.exec t.core a = some (s', e) → (t.core.procs q).state ≠ .unused →
      (s'.procs q).state ≠ .unused → (s'.procs q).isThread = (t.core.procs q).isThread := by
  obtain ⟨sound, left⟩ := left_of_reachable reach
  refine ⟨fun q => (left q).vacant, fun p q m t' e point unused enough step => ?_,
    fun q a s' e step was inUse => ?_⟩
  · have vacant := (left q).vacant unused
    obtain ⟨⟨s', e'⟩, run, same⟩ := Option.map_eq_some_iff.mp step
    obtain ⟨rfl, rfl⟩ := Prod.mk.inj same
    rw [enough] at run
    rcases (exec_allocproc sound run point unused).2 with ⟨_, rfl, made⟩ | ⟨failed, _⟩
    · rw [made]
      refine ⟨vacant.isThread, ?_⟩
      unfold runHold
      rw [point]
      dsimp only
      rw [if_pos ⟨rfl, unused⟩]
      exact vacant.alloc (t.hold p) enough
    · cases failed
  · obtain ⟨r, new, turn, procs⟩ := Step.turns (l := (a, e)) (.of_exec step)
    rw [procs] at inUse ⊢
    by_cases here : q = r
    · subst here
      rw [update_self] at inUse ⊢
      exact turn.isThread was inUse
    · rw [update_of_ne here]

/-- `initproc` opens a file, makes a thread, which exits, and joins it; then it forks. -/
def threadThenFork : List Move :=
  let go (p : Slot) (n : Nat) := List.replicate n (Move.run p ⟨8, 9, none⟩)
  [.act (.dispatch 0), .own 0 (.file 3 (some 7)), .act (.call 0 .clone)] ++ go 0 4 ++
    [.act (.call 0 (.wait .kjoin))] ++ go 0 69 ++
    [.act (.dispatch 1), .act (.call 1 (.exit 0))] ++ go 1 134 ++ [.act (.dispatch 0)] ++ go 0 5 ++
    [.act (.call 0 .fork)] ++ go 0 1

/-- The child is about to be made in the slot of the thread, which is empty. -/
theorem reused_slot_is_vacant_joined :
    ∃ t, table.Reachable t ∧ t.core.pc 0 = .allocproc false 1 ∧
      (t.core.procs 1).state = .unused ∧ Vacant (t.core.procs 1) (t.hold 1) := by
  obtain ⟨t, reach, point, free⟩ : ∃ t, table.Reachable t ∧ t.core.pc 0 = .allocproc false 1 ∧
      (t.core.procs 1).state = .unused :=
    Lts.exists_of_run (s := started 4 5 6) ⟨4, 5, 6, rfl⟩ threadThenFork (by decide +kernel)
  exact ⟨t, reach, point, free, (reused_slot_is_vacant reach).1 1 free⟩

end Xv6.Wait
