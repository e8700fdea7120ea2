import Mathlib.Data.List.Count
import Xv6.Lib.Transition

/-!
# Spinlocks and interrupts

`acquire`, `release`, `push_off` and `pop_off` of `kernel/spinlock.c`, with `sched` and `scheduler`
of `kernel/proc.c`, on any number of CPUs. A CPU runs its scheduler or the kernel thread of a
process, which acquires and releases spinlocks in any order; while it holds none it may enable and
disable interrupts. Where they are enabled, an interrupt can be taken, also inside `push_off`; its
handler is code like any other, and can give up the CPU before it returns. The scheduler may switch
to any process that does not run.

`noff` and `intena` belong to the CPU, and `sched` saves `intena` in a variable of the thread. A
panic other than those of `pop_off` is no step.
-/

namespace Xv6.Spinlock

open Function (update update_self update_of_ne)

/-- A spinlock: `p->lock`, or any other. -/
inductive Lk (P L : Type)
  | proc (p : P)
  | other (l : L)
  deriving DecidableEq

/-- Where a kernel thread is. -/
inductive Pc (P L : Type)
  | code
  /-- in `push_off`, after `old = intr_get()` -/
  | pushing (lk : Lk P L) (old : Bool)
  /-- in `acquire`, after `push_off` -/
  | spinning (lk : Lk P L)
  /-- in `release`, before `pop_off` -/
  | popping
  deriving DecidableEq

/-- `struct cpu`, and what the CPU runs. -/
structure Cpu (P L : Type) where
  /-- none while the scheduler runs -/
  proc : Option P := none
  noff : Nat := 0
  intena : Bool := false
  /-- interrupts are enabled -/
  sie : Bool := false
  pc : Pc P L := .code
  /-- where the thread was interrupted, the last point first -/
  traps : List (Pc P L) := []

structure Proc (n : Nat) (P L : Type) where
  cpu : Option (Fin n) := none
  /-- The interrupted points and the variable `intena` of `sched`; none in a new process, which
  starts in `forkret`. -/
  context : Option (List (Pc P L) × Bool) := none

structure State (n : Nat) (P L : Type) where
  cpus : Fin n → Cpu P L := fun _ => {}
  procs : P → Proc n P L := fun _ => {}
  /-- the locks that are held, with `lk->cpu` -/
  locks : List (Lk P L × Fin n) := []

inductive Panic
  | popOffInterruptible
  | popOff

inductive Action (P L : Type)
  /-- `intr_on()` or `intr_off()` -/
  | intr (on : Bool)
  | trap
  | sret
  | acquire (lk : Lk P L)
  | release (lk : Lk P L)
  /-- the next statement of `acquire` or `release` -/
  | next
  | sched
  /-- The scheduler switches to a process. -/
  | swtch (p : P)
  | alloc (p : P)

variable {n : Nat} {P L : Type}

/-- `push_off`, after `old = intr_get()` -/
def Cpu.pushOff (cpu : Cpu P L) (old : Bool) : Cpu P L :=
  { cpu with
    sie := false
    intena := if cpu.noff = 0 then old else cpu.intena
    noff := cpu.noff + 1 }

def Cpu.popOff (cpu : Cpu P L) : Except Panic (Cpu P L) :=
  if cpu.sie then .error .popOffInterruptible
  else if cpu.noff < 1 then .error .popOff
  else .ok { cpu with noff := cpu.noff - 1, sie := cpu.noff - 1 = 0 && cpu.intena }

def Cpu.resume (cpu : Cpu P L) (p : P) : Option (List (Pc P L) × Bool) → Cpu P L
  | none => { cpu with proc := some p }
  | some (traps, intena) => { cpu with proc := some p, traps := traps, intena := intena }

namespace State

variable (s : State n P L) (c : Fin n)

/-- The CPU holds no lock. -/
def Free : Prop := ∀ x ∈ s.locks, x.2 ≠ c
  deriving Decidable

def set (cpu : Cpu P L) (locks : List (Lk P L × Fin n)) : State n P L :=
  { s with cpus := update s.cpus c cpu, locks := locks }

def setProc [DecidableEq P] (p : P) (proc : Proc n P L) : State n P L :=
  { s with procs := update s.procs p proc }

end State

section Exec

variable [DecidableEq P] [DecidableEq L]

/-- A step of CPU `c` that is not in `pop_off`. -/
def step (s : State n P L) (c : Fin n) (cpu : Cpu P L) :
    Pc P L → Action P L → Option (State n P L)
  | pc, .trap =>
    if cpu.sie then
      some (s.set c { cpu with sie := false, pc := .code, traps := pc :: cpu.traps } s.locks)
    else none
  | .code, .sret =>
    match cpu.traps with
    | pc :: traps =>
      if s.Free c then some (s.set c { cpu with sie := true, pc := pc, traps := traps } s.locks)
      else none
    | [] => none
  | .code, .intr on => if s.Free c then some (s.set c { cpu with sie := on } s.locks) else none
  | .code, .acquire lk => some (s.set c { cpu with pc := .pushing lk cpu.sie } s.locks)
  | .pushing lk old, .next =>
    if (lk, c) ∈ s.locks then none
    else some (s.set c { cpu.pushOff old with pc := .spinning lk } s.locks)
  | .spinning lk, .next =>
    if ∃ x ∈ s.locks, x.1 = lk then none
    else some (s.set c { cpu with pc := .code } ((lk, c) :: s.locks))
  | .code, .release lk =>
    if (lk, c) ∈ s.locks then
      some (s.set c { cpu with pc := .popping } (s.locks.erase (lk, c)))
    else none
  | .code, .sched =>
    match cpu.proc with
    | some p =>
      if (.proc p, c) ∈ s.locks ∧ cpu.noff = 1 ∧ cpu.sie = false then
        some ((s.set c { cpu with proc := none, traps := [] } s.locks).setProc p
          ⟨none, some (cpu.traps, cpu.intena)⟩)
      else none
    | none => none
  | .code, .swtch p =>
    -- the scheduler holds no lock but `p->lock`, and is not in an interrupt
    if cpu.proc.isNone ∧ cpu.traps.isEmpty ∧ s.locks.filter (·.2 = c) = [(.proc p, c)] ∧
        (s.procs p).cpu = none then
      some ((s.set c (cpu.resume p (s.procs p).context) s.locks).setProc p
        { s.procs p with cpu := some c })
    else none
  | .code, .alloc p =>
    if (.proc p, c) ∈ s.locks ∧ (s.procs p).cpu = none then some (s.setProc p {}) else none
  | _, _ => none

def exec (s : State n P L) : Fin n × Action P L → Option (State n P L × Option Panic)
  | (c, a) =>
    match (s.cpus c).pc, a with
    | .popping, .next =>
      match (s.cpus c).popOff with
      | .ok cpu => some (s.set c { cpu with pc := .code } s.locks, none)
      | .error panic => some (s, some panic)
    | pc, a => (step s c (s.cpus c) pc a).map (·, none)

/-- What is known of the locks that a process takes. -/
structure Nest where
  /-- Interrupts were enabled when it took the first one. -/
  first : Bool := false
  /-- It has left `forkret`. -/
  ran : Bool := false

/-- What the next statement of CPU `c` shows of its process. -/
def Nest.next (s : State n P L) (c : Fin n) (nest : Nest) : Nest :=
  if s.Free c then
    match (s.cpus c).pc with
    | .pushing _ _ => { nest with first := (s.cpus c).sie }
    | .popping => { nest with ran := true }
    | _ => nest
  else nest

def note (h : P → Nest) (s : State n P L) : (Fin n × Action P L) × Option Panic → P → Nest
  | ((c, .next), _) => fun p => if (s.cpus c).proc = some p then (h p).next s c else h p
  | ((_, .alloc p), _) => update h p {}
  | _ => h

def observed (n : Nat) (P L : Type) [DecidableEq P] [DecidableEq L] :
    Lts (State n P L × (P → Nest)) ((Fin n × Action P L) × Option Panic) :=
  (Lts.ofExec (· = {}) exec).observed (fun _ => {}) note

end Exec

/-- A point at which interrupts are enabled. -/
def Pc.Open : Pc P L → Prop
  | .code | .pushing _ true => True
  | _ => False

/-- The levels of `push_off` beyond the locks that are held. -/
@[simp] def Pc.extra : Pc P L → Nat
  | .code | .pushing .. => 0
  | .spinning _ | .popping => 1

/-- A CPU that holds `k` locks. -/
structure Cpu.Ok (k : Nat) (cpu : Cpu P L) : Prop where
  depth : cpu.noff = k + cpu.pc.extra
  off : 0 < cpu.noff → cpu.sie = false
  old : ∀ lk old, cpu.pc = .pushing lk old → cpu.sie = old
  traps : ∀ pc ∈ cpu.traps, pc.Open

structure Proc.Ok (nest : Nest) (proc : Proc n P L) : Prop where
  traps : ∀ traps intena, proc.context = some (traps, intena) → ∀ pc ∈ traps, pc.Open
  first : proc.cpu = none → nest.ran → ∃ traps, proc.context = some (traps, nest.first)

structure Inv (s : State n P L) (h : P → Nest) : Prop where
  cpu : ∀ c, (s.cpus c).Ok (s.locks.countP (·.2 = c))
  proc : ∀ p, (s.procs p).Ok (h p)
  runs : ∀ c p, (s.cpus c).proc = some p → (s.procs p).cpu = some c ∧
    ((h p).ran → 0 < (s.cpus c).noff → (s.cpus c).intena = (h p).first)

variable {s s' : State n P L} {h h' : P → Nest} {c : Fin n} {cpu : Cpu P L}
  {locks : List (Lk P L × Fin n)}

theorem Pc.Open.extra {pc : Pc P L} (free : pc.Open) : pc.extra = 0 := by
  cases pc <;> trivial

theorem free_iff : s.Free c ↔ s.locks.countP (·.2 = c) = 0 := by
  simp [State.Free]

/-- A step that changes one CPU, and no process that runs on another. -/
theorem Inv.change {procs : P → Proc n P L} (inv : Inv s h) (ok : cpu.Ok (locks.countP (·.2 = c)))
    (others : ∀ c' ≠ c, locks.countP (·.2 = c') = s.locks.countP (·.2 = c'))
    (proc : ∀ p, (procs p).Ok (h' p))
    (away : ∀ p, ∀ c' ≠ c, (s.procs p).cpu = some c' → (procs p).cpu = some c' ∧ h' p = h p)
    (own : ∀ p, cpu.proc = some p → (procs p).cpu = some c ∧
      ((h' p).ran → 0 < cpu.noff → cpu.intena = (h' p).first)) :
    Inv ⟨update s.cpus c cpu, procs, locks⟩ h' := by
  have at_self : update s.cpus c cpu c = cpu := update_self ..
  have at_other {c' : Fin n} (other : c' ≠ c) : update s.cpus c cpu c' = s.cpus c' :=
    update_of_ne other ..
  refine ⟨fun c' => ?_, proc, fun c' p runs => ?_⟩ <;> by_cases here : c' = c <;>
    dsimp only at *
  · rwa [here, at_self]
  · rw [at_other here, others c' here]
    exact inv.cpu c'
  · rw [here, at_self] at runs ⊢
    exact own p runs
  · rw [at_other here] at runs ⊢
    have ⟨there, first⟩ := inv.runs c' p runs
    obtain ⟨stays, same⟩ := away p c' here there
    exact ⟨stays, same ▸ first⟩

/-- A step that changes the locks of one CPU, and what is noted of its process. -/
theorem Inv.set (inv : Inv s h) (ok : cpu.Ok (locks.countP (·.2 = c)))
    (others : ∀ c' ≠ c, locks.countP (·.2 = c') = s.locks.countP (·.2 = c'))
    (same : cpu.proc = (s.cpus c).proc)
    (first : ∀ p, cpu.proc = some p → (h' p).ran → 0 < cpu.noff → cpu.intena = (h' p).first)
    (noted : ∀ p, (s.cpus c).proc ≠ some p → h' p = h p) : Inv (s.set c cpu locks) h' := by
  have apart {p : P} (other : (s.procs p).cpu ≠ some c) : h' p = h p :=
    noted p fun runs => other (inv.runs c p runs).1
  refine inv.change ok others (fun p => ⟨(inv.proc p).traps, fun parked => ?_⟩)
    (fun p c' other there => ⟨there, apart ?_⟩)
    fun p runs => ⟨(inv.runs c p (same ▸ runs)).1, first p runs⟩
  · rw [apart (by simp [parked])]
    exact (inv.proc p).first parked
  · simpa [there] using other

theorem Inv.quiet (inv : Inv s h) (ok : cpu.Ok (s.locks.countP (·.2 = c)))
    (same : cpu.proc = (s.cpus c).proc) (noff : cpu.noff = (s.cpus c).noff)
    (intena : cpu.intena = (s.cpus c).intena) : Inv (s.set c cpu s.locks) h := by
  refine inv.set ok (fun _ _ => rfl) same (fun p runs => ?_) fun _ _ => rfl
  rw [noff, intena]
  exact (inv.runs c p (same ▸ runs)).2

theorem popOff_ok {k : Nat} (ok : cpu.Ok k) (pc : cpu.pc = .popping) :
    cpu.popOff = .ok { cpu with noff := k, sie := k = 0 && cpu.intena } := by
  have depth : cpu.noff = k + 1 := by simp [ok.depth, pc]
  rw [Cpu.popOff, ok.off (by omega), if_neg nofun, if_neg (by omega), depth]
  rfl

theorem Inv.trap (inv : Inv s h) (on : (s.cpus c).sie) :
    Inv (s.set c { s.cpus c with
      sie := false, pc := .code, traps := (s.cpus c).pc :: (s.cpus c).traps } s.locks) h := by
  have ok := inv.cpu c
  have reading : (s.cpus c).pc.Open := by
    have idle : ¬0 < (s.cpus c).noff := fun pos => by cases (ok.off pos).symm.trans on
    cases pc : (s.cpus c).pc with
    | code => trivial
    | pushing lk old =>
      rw [← ok.old lk old pc, on]
      trivial
    | spinning lk | popping => simp [ok.depth, pc] at idle
  refine inv.quiet ⟨?_, fun _ => rfl, nofun, ?_⟩ rfl rfl rfl
  · rw [ok.depth, reading.extra]
    rfl
  · rintro pc (_ | ⟨_, mem⟩)
    · exact reading
    · exact ok.traps pc mem

section Moves

variable [DecidableEq P] {p : P} {proc : Proc n P L}

/-- A step that changes one CPU and a process that runs on no other. -/
theorem Inv.setProc (inv : Inv s h) (ok : cpu.Ok (s.locks.countP (·.2 = c)))
    (away : ∀ c' ≠ c, (s.procs p).cpu ≠ some c') (procOk : proc.Ok (h' p))
    (noted : ∀ q ≠ p, h' q = h q)
    (own : ∀ q, cpu.proc = some q → (update s.procs p proc q).cpu = some c ∧
      ((h' q).ran → 0 < cpu.noff → cpu.intena = (h' q).first)) :
    Inv ((s.set c cpu s.locks).setProc p proc) h' := by
  refine inv.change ok (fun _ _ => rfl) (fun q => ?_) (fun q c' other there => ?_) own
  · by_cases here : q = p
    · subst here
      rwa [update_self]
    · rw [update_of_ne here, noted q here]
      exact inv.proc q
  · have here : q ≠ p := fun same => away c' other (same ▸ there)
    rw [update_of_ne here]
    exact ⟨there, noted q here⟩

theorem Inv.sched (inv : Inv s h) (runs : (s.cpus c).proc = some p) (depth : (s.cpus c).noff = 1) :
    Inv ((s.set c { s.cpus c with proc := none, traps := [] } s.locks).setProc p
      ⟨none, some ((s.cpus c).traps, (s.cpus c).intena)⟩) h := by
  have ok := inv.cpu c
  have ⟨here, first⟩ := inv.runs c p runs
  refine inv.setProc ⟨ok.depth, ok.off, ok.old, nofun⟩ ?_ ⟨?_, fun _ ran => ?_⟩ (fun _ _ => rfl)
    nofun
  · exact fun c' other there => other (Option.some.inj (there.symm.trans here))
  · rintro _ _ ⟨⟩
    exact ok.traps
  · exact ⟨_, by rw [first ran (by omega)]⟩

/-- The process finds its own `intena`, whatever the scheduler had. -/
theorem Inv.swtch (inv : Inv s h) (parked : (s.procs p).cpu = none) :
    Inv ((s.set c ((s.cpus c).resume p (s.procs p).context) s.locks).setProc p
      { s.procs p with cpu := some c }) h := by
  have ok := inv.cpu c
  have procOk := inv.proc p
  refine inv.setProc ?_ (by simp [parked]) ⟨procOk.traps, nofun⟩ (fun _ _ => rfl) fun q runs => ?_
  · cases context : (s.procs p).context with
    | none => exact ⟨ok.depth, ok.off, ok.old, ok.traps⟩
    | some saved => exact ⟨ok.depth, ok.off, ok.old, procOk.traps _ _ context⟩
  · have current : ((s.cpus c).resume p (s.procs p).context).proc = some p := by
      cases (s.procs p).context <;> rfl
    cases current.symm.trans runs
    rw [update_self]
    refine ⟨rfl, fun ran _ => ?_⟩
    obtain ⟨traps, saved⟩ := procOk.first parked ran
    rw [saved]
    rfl

theorem Inv.alloc (inv : Inv s h) (c : Fin n) (parked : (s.procs p).cpu = none) :
    Inv (s.setProc p {}) (update h p {}) := by
  have same : s.set c (s.cpus c) s.locks = s := by simp [State.set]
  rw [← same]
  refine inv.setProc (inv.cpu c) (by simp [parked]) ⟨nofun, fun _ ran => ?_⟩
    (fun _ other => update_of_ne other ..) fun q runs => ?_
  · rw [update_self] at ran
    cases ran
  · have other : q ≠ p := fun here => by cases (here ▸ parked).symm.trans (inv.runs c q runs).1
    rw [update_of_ne other, update_of_ne other]
    exact inv.runs c q runs

theorem Inv.pushOff (inv : Inv s h) {lk : Lk P L} {old : Bool}
    (pc : (s.cpus c).pc = .pushing lk old) :
    Inv (s.set c { (s.cpus c).pushOff old with pc := .spinning lk } s.locks)
      (note h s ((c, .next), none)) := by
  have ok := inv.cpu c
  have depth : (s.cpus c).noff = s.locks.countP (·.2 = c) := by simp [ok.depth, pc]
  refine inv.set ⟨by simp [Cpu.pushOff, depth], fun _ => rfl, nofun, ok.traps⟩ (fun _ _ => rfl) rfl
    (fun p runs ran _ => ?_) fun _ other => if_neg other
  rw [show note h s ((c, .next), none) p = _ from if_pos runs, Nest.next, pc] at ran ⊢
  -- the first lock records what `old` was, and a further one leaves `intena` alone
  by_cases free : s.Free c
  · rw [if_pos free]
    exact (if_pos (depth.trans (free_iff.mp free))).trans (ok.old lk old pc).symm
  · have pos : (s.cpus c).noff ≠ 0 := fun zero => free (free_iff.mpr (depth ▸ zero))
    rw [if_neg free] at ran ⊢
    exact (if_neg pos).trans ((inv.runs c p runs).2 ran (Nat.pos_of_ne_zero pos))

theorem Inv.popOff (inv : Inv s h) (pc : (s.cpus c).pc = .popping) :
    Inv (s.set c { s.cpus c with
      noff := s.locks.countP (·.2 = c), pc := .code
      sie := s.locks.countP (·.2 = c) = 0 && (s.cpus c).intena } s.locks)
      (note h s ((c, .next), none)) := by
  have ok := inv.cpu c
  refine inv.set ⟨rfl, fun pos => ?_, nofun, ok.traps⟩ (fun _ _ => rfl) rfl
    (fun p runs ran pos => ?_) fun _ other => if_neg other
  · have some : s.locks.countP (·.2 = c) ≠ 0 := Nat.ne_of_gt pos
    simp [some]
  · have same : note h s ((c, .next), none) p = h p := by
      refine (if_pos runs).trans ?_
      rw [Nest.next, if_neg fun free => Nat.ne_of_gt pos (free_iff.mp free)]
    rw [same] at ran ⊢
    exact (inv.runs c p runs).2 ran (by simp [ok.depth, pc])

end Moves

section Step

variable [DecidableEq P] [DecidableEq L]

theorem Inv.step (inv : Inv s h) {a : Action P L}
    (run : step s c (s.cpus c) (s.cpus c).pc a = some s') : Inv s' (note h s ((c, a), none)) := by
  have ok := inv.cpu c
  have off (free : s.Free c) (pc : (s.cpus c).pc = .code) : ¬0 < (s.cpus c).noff := by
    simp [ok.depth, pc, free_iff.mp free]
  generalize pc : (s.cpus c).pc = here at run
  unfold Spinlock.step at run
  split at run
  · split at run <;> cases run
    next on => exact pc ▸ inv.trap on
  · split at run
    · next top traps frames =>
      split at run <;> cases run
      next free =>
      have top_open := ok.traps top (by simp [frames])
      refine inv.quiet ⟨?_, fun pos => absurd pos (off free pc), ?_, fun pc mem => ?_⟩ rfl rfl rfl
      · rw [ok.depth, pc]
        exact congrArg _ top_open.extra.symm
      · rintro lk old ⟨⟩
        cases old <;> trivial
      · exact ok.traps pc (by simp [frames, mem])
    · cases run
  · split at run <;> cases run
    next free =>
    exact inv.quiet ⟨ok.depth, fun pos => absurd pos (off free pc), by simp [pc], ok.traps⟩ rfl rfl
      rfl
  · cases run
    refine inv.quiet ⟨by simp [ok.depth, pc], ok.off, ?_, ok.traps⟩ rfl rfl rfl
    rintro _ _ ⟨⟩
    rfl
  · split at run <;> cases run
    exact inv.pushOff pc
  · split at run <;> cases run
    next lk _ =>
    refine inv.set
      ⟨by simp [ok.depth, pc], fun _ => ok.off (by simp [ok.depth, pc]), nofun, ok.traps⟩
      (fun c' other => by simp [other.symm]) rfl (fun p runs => ?_) fun _ other => if_neg other
    have same : note h s ((c, .next), none) p = h p :=
      (if_pos runs).trans (by simp [Nest.next, pc])
    rw [same]
    exact (inv.runs c p runs).2
  · split at run <;> cases run
    next lk held =>
    have count (c' : Fin n) := (List.perm_cons_erase held).countP_eq (·.2 = c')
    refine inv.set ⟨?_, ok.off, nofun, ok.traps⟩ (fun c' other => ?_) rfl
      (fun p runs => (inv.runs c p runs).2) fun _ _ => rfl
    · rw [ok.depth, pc, count c, List.countP_cons_of_pos (by simp)]
      rfl
    · rw [count c', List.countP_cons_of_neg (by simpa using other.symm)]
  · split at run
    · next p runs =>
      split at run <;> cases run
      next ready => exact inv.sched runs ready.2.1
    · cases run
  · split at run <;> cases run
    next ready => exact inv.swtch ready.2.2.2
  · split at run <;> cases run
    next ready => exact inv.alloc c ready.2
  · cases run

theorem inv_of_reachable {x : State n P L × (P → Nest)} (reach : (observed n P L).Reachable x) :
    Inv x.1 x.2 := by
  refine reach.invariant (P := fun x => Inv x.1 x.2) ?_ ?_
  · rintro ⟨s, h⟩ ⟨rfl, rfl⟩
    exact ⟨fun _ => ⟨rfl, nofun, nofun, nofun⟩, fun _ => ⟨nofun, nofun⟩, nofun⟩
  · rintro ⟨s, h⟩ ⟨⟨c, a⟩, shown⟩ ⟨s', h'⟩ inv ⟨run, rfl⟩
    simp only [Lts.ofExec, exec] at run
    split at run
    · next pc =>
      rw [popOff_ok (inv.cpu c) pc] at run
      cases run
      exact inv.popOff pc
    · obtain ⟨s'', stepped, ⟨⟩⟩ := Option.map_eq_some_iff.mp run
      exact inv.step stepped

/-- **Interrupts survive locking and migration**: they are off on a CPU that holds a lock, `pop_off`
does not panic, and a process that drops its last lock finds them as they were when it took the
first one, on whichever CPU. -/
theorem interrupts_survive (reach : (observed n P L).Reachable (s, h)) :
    (∀ c lk, (lk, c) ∈ s.locks → (s.cpus c).sie = false) ∧
    (∀ c a s' panic, exec s (c, a) ≠ some (s', some panic)) ∧
    ∀ c p, (s.cpus c).proc = some p → (h p).ran → (s.cpus c).pc = .popping → s.Free c →
      ∃ s', exec s (c, .next) = some (s', none) ∧ (s'.cpus c).sie = (h p).first := by
  have inv : Inv s h := inv_of_reachable reach
  refine ⟨fun c lk held => ?_, fun c a s' panic run => ?_, fun c p runs ran pc free => ?_⟩
  · have ok := inv.cpu c
    have pos : 0 < s.locks.countP (·.2 = c) := List.countP_pos_iff.mpr ⟨_, held, by simp⟩
    exact ok.off (by rw [ok.depth]; omega)
  · simp only [exec] at run
    split at run
    · next pc =>
      rw [popOff_ok (inv.cpu c) pc] at run
      cases run
    · obtain ⟨s'', -, ⟨⟩⟩ := Option.map_eq_some_iff.mp run
  · have first := (inv.runs c p runs).2 ran (by simp [(inv.cpu c).depth, pc])
    refine ⟨_, by simp only [exec, pc, popOff_ok (inv.cpu c) pc]; rfl, ?_⟩
    simp [State.set, free_iff.mp free, first]

end Step

/-- Process 0 enables interrupts and yields on the first CPU, and is resumed on the second, where
they were off. -/
theorem interrupts_survive_migration :
    ∃ s s' h, (observed 2 Nat Nat).Reachable (s, h) ∧ (s.cpus 1).proc = some 0 ∧
      exec s (1, .next) = some (s', none) ∧ (s'.cpus 1).sie = true := by
  obtain ⟨⟨s, h⟩, reach, runs, ran, pc, free, first⟩ : ∃ x, (observed 2 Nat Nat).Reachable x ∧
      (x.1.cpus 1).proc = some 0 ∧ (x.2 0).ran ∧ (x.1.cpus 1).pc = .popping ∧ x.1.Free 1 ∧
      (x.2 0).first = true :=
    Lts.exists_of_replay (fun _ _ => True) (by rfl)
      [(0, .acquire (.proc 0)), (0, .next), (0, .next), (0, .swtch 0), (0, .release (.proc 0)),
        (0, .next), (0, .intr true), (0, .acquire (.proc 0)), (0, .trap), (0, .sret), (0, .next),
        (0, .next), (0, .sched), (0, .release (.proc 0)), (0, .next), (1, .acquire (.proc 0)),
        (1, .next), (1, .next), (1, .swtch 0), (1, .release (.proc 0))] (by decide +kernel)
  obtain ⟨s', run, on⟩ := (interrupts_survive reach).2.2 1 0 runs ran pc free
  exact ⟨s, s', h, reach, runs, run, on.trans first⟩

end Xv6.Spinlock
