import Xv6.Sched.Basic

/-!
# The invariant of the scheduler

What a CPU is doing says which lock it holds, which process it runs, and which process it is
leaving. A process is `RUNNING` exactly while some CPU runs it, and a CPU that leaves a process
holds its lock until its context is saved; so the scheduler, which takes the lock first, never
finds a process that another CPU has not left for good.

Every step either moves one CPU on, takes or drops a lock, or changes the state of one process
under its lock, and there is one lemma for each of these.
-/

namespace Xv6.Sched

variable {n : Nat}

/-! ## What a CPU is doing -/

def Pc.holds (t : Slot) : Pc → Option Slot
  | .body => none
  | .held q _ | .done q => some q
  | .forkret | .yieldHeld | .sleepHeld _ | .exitHeld | .sched _ | .saved | .resumed _ => some t

def Code.holds : Code → Option Slot
  | .scan => none
  | .check p | .picked p | .current p | .load p | .back p | .finish p => some p
  | .wake q _ | .woken q => some q
  | .thread t pc => pc.holds t

/-- Is the thread on its way out? -/
def Pc.leaves : Pc → Bool
  | .sched _ | .saved => true
  | .forkret | .body | .yieldHeld | .sleepHeld _ | .exitHeld | .resumed _ | .held _ _
  | .done _ => false

def Code.runs : Code → Option Slot
  | .picked p | .current p | .load p => some p
  | .thread t pc => if pc.leaves then none else some t
  | .scan | .check _ | .back _ | .finish _ | .wake _ _ | .woken _ => none

def Code.leaves : Code → Option Slot
  | .back p | .finish p => some p
  | .thread t pc => if pc.leaves then some t else none
  | .scan | .check _ | .picked _ | .current _ | .load _ | .wake _ _ | .woken _ => none

/-- `c->proc` -/
def Code.proc : Code → Option Slot
  | .current p | .load p | .back p => some p
  | .thread t _ => some t
  | .scan | .check _ | .picked _ | .finish _ | .wake _ _ | .woken _ => none

/-- The process for which the scheduler's context has been saved. -/
def Code.away : Code → Option Slot
  | .load p => some p
  | .thread t _ => some t
  | .scan | .check _ | .picked _ | .current _ | .back _ | .finish _ | .wake _ _ | .woken _ => none

theorem Code.holds_of_leaves {code : Code} (leaves : code.leaves = some p) :
    code.holds = some p := by
  cases code with
  | back | finish => exact leaves
  | thread t pc =>
    cases pc with
    | sched | saved => exact leaves
    | _ => cases leaves
  | _ => cases leaves

theorem Code.runs_or_leaves {code : Code} (at_ : code.proc = some p) :
    code.runs = some p ∨ code.leaves = some p := by
  cases code with
  | current | load => exact .inl at_
  | back => exact .inr at_
  | thread t pc =>
    cases pc with
    | sched | saved => exact .inr at_
    | _ => exact .inl at_
  | _ => cases at_

/-- A process that a CPU runs is its `c->proc`, once the scheduler has set it. -/
theorem Code.proc_or_picked {code : Code} (runs : code.runs = some p) :
    code.proc = some p ∨ code = .picked p := by
  cases code with
  | current | load => exact .inl runs
  | picked q =>
    cases runs
    exact .inr rfl
  | thread t pc =>
    cases pc with
    | sched | saved => cases runs
    | _ => exact .inl runs
  | _ => cases runs

theorem Code.runs_thread (runs : pc.leaves = false) : (Code.thread t pc).runs = some t := by
  simp [Code.runs, runs]

theorem Code.leaves_thread (runs : pc.leaves = false) : (Code.thread t pc).leaves = none := by
  simp [Code.leaves, runs]

structure Inv (s : State n) : Prop where
  lock : ∀ p c, s.lock p = some c ↔ (s.cpus c).code.holds = some p
  running : ∀ p, (s.procs p).state = .running ↔ ∃ c, (s.cpus c).code.runs = some p
  once : ∀ c c' p, (s.cpus c).code.runs = some p → (s.cpus c').code.runs = some p → c = c'
  leaves : ∀ c p, (s.cpus c).code.leaves = some p → (s.procs p).state ≠ .running
  proc : ∀ c, (s.cpus c).proc = (s.cpus c).code.proc
  away : ∀ c p, (s.cpus c).code.away = some p → (s.cpus c).context = some p
  used : ∀ p q, s.np p = some q → (s.procs q).state = .used
  mine : ∀ p p' q, s.np p = some q → s.np p' = some q → p = p'
  plan : ∀ c t q job, (s.cpus c).code = .thread t (.held q job) → job.allowed s t q = true

theorem Inv.boot : Inv (boot n) := by
  refine ⟨fun p c => ⟨nofun, nofun⟩, fun p => ?_, nofun, nofun, fun c => rfl, nofun, nofun, nofun,
    nofun⟩
  refine ⟨fun running => ?_, fun ⟨c, runs⟩ => nomatch runs⟩
  unfold Sched.boot at running
  dsimp only at running
  split at running <;> cases running

variable {s s' : State n} {c : Fin n} {p q t : Slot} {code : Code} {cpu : Cpu} {job : Job}

theorem Inv.lock_inj (inv : Inv s) (here : (s.cpus c).code.holds = some p)
    (there : (s.cpus c').code.holds = some p) : c = c' := by
  have ofC := (inv.lock p c).mpr here
  rw [(inv.lock p c').mpr there] at ofC
  exact (Option.some.inj ofC).symm

theorem Job.allowed_congr (np : s'.np t = s.np t) : job.allowed s' t q = job.allowed s t q := by
  cases job with
  | alloc | start => simp only [Job.allowed, np]
  | _ => rfl

/-- What CPU `c` has to see to when it goes on with the record `cpu`. -/
structure GoesOn (s s' : State n) (c : Fin n) (cpu : Cpu) : Prop where
  cpus : s'.cpus = Function.update s.cpus c cpu
  proc : cpu.proc = cpu.code.proc
  away : ∀ p, cpu.code.away = some p → cpu.context = some p
  plan : ∀ t q job, cpu.code = .thread t (.held q job) → job.allowed s' t q = true

theorem GoesOn.self (on : GoesOn s s' c cpu) : s'.cpus c = cpu := by
  rw [on.cpus, Function.update_self]

theorem GoesOn.other (on : GoesOn s s' c cpu) (other : c' ≠ c) : s'.cpus c' = s.cpus c' := by
  rw [on.cpus, Function.update_of_ne other]

theorem GoesOn.each (on : GoesOn s s' c cpu) {P : Fin n → Cpu → Prop} (self : P c cpu)
    (others : ∀ c', c' ≠ c → P c' (s.cpus c')) (c' : Fin n) : P c' (s'.cpus c') := by
  by_cases at_ : c' = c
  · rw [at_, on.self]
    exact self
  · rw [on.other at_]
    exact others c' at_

theorem GoesOn.same {β : Type} (on : GoesOn s s' c cpu) (g : Code → β)
    (same : g cpu.code = g (s.cpus c).code) (c' : Fin n) :
    g (s'.cpus c').code = g (s.cpus c').code :=
  on.each (P := fun c' cpu => g cpu.code = g (s.cpus c').code) same (fun _ _ => rfl) c'

/-- CPU `c` goes on with what it runs, and the locks agree with what the CPUs hold. -/
theorem Inv.goOn (inv : Inv s) (on : GoesOn s s' c cpu)
    (lock : ∀ p c, s'.lock p = some c ↔ (s'.cpus c).code.holds = some p)
    (states : ∀ p, (s'.procs p).state = (s.procs p).state) (np : s'.np = s.np)
    (runs : cpu.code.runs = (s.cpus c).code.runs)
    (leaves : ∀ p, cpu.code.leaves = some p → (s.procs p).state ≠ .running) : Inv s' := by
  have runs := on.same Code.runs runs
  refine ⟨lock, ?_, ?_, ?_, ?_, ?_, ?_, ?_, ?_⟩
  · intro p
    simp only [states, runs]
    exact inv.running p
  · intro c1 c2 p
    rw [runs, runs]
    exact inv.once c1 c2 p
  · simp only [states]
    exact on.each (P := fun _ cpu => ∀ p, cpu.code.leaves = some p → (s.procs p).state ≠ .running)
      leaves fun c' _ => inv.leaves c'
  · exact on.each (P := fun _ cpu => cpu.proc = cpu.code.proc) on.proc fun c' _ => inv.proc c'
  · exact on.each (P := fun _ cpu => ∀ p, cpu.code.away = some p → cpu.context = some p) on.away
      fun c' _ => inv.away c'
  · intro p q
    rw [np, states]
    exact inv.used p q
  · rw [np]
    exact inv.mine
  · refine on.each (P := fun _ cpu => ∀ t q job, cpu.code = .thread t (.held q job) →
      job.allowed s' t q = true) on.plan fun c' _ t q job at_ => ?_
    rw [Job.allowed_congr (congrFun np t)]
    exact inv.plan c' t q job at_

theorem Inv.move (inv : Inv s) (on : GoesOn s s' c cpu) (lock : s'.lock = s.lock)
    (states : ∀ p, (s'.procs p).state = (s.procs p).state) (np : s'.np = s.np)
    (holds : cpu.code.holds = (s.cpus c).code.holds) (runs : cpu.code.runs = (s.cpus c).code.runs)
    (leaves : cpu.code.leaves = (s.cpus c).code.leaves) : Inv s' := by
  refine inv.goOn on (fun p c' => ?_) states np runs (leaves ▸ inv.leaves c)
  rw [lock, on.same Code.holds holds]
  exact inv.lock p c'

theorem Inv.relock (inv : Inv s) (on : GoesOn s s' c cpu)
    (locks : s'.lock = Function.update s.lock q (if cpu.code.holds = some q then some c else none))
    (turn : s.lock q = none ∧ (s.cpus c).code.holds = none ∧ cpu.code.holds = some q ∨
      (s.cpus c).code.holds = some q ∧ cpu.code.holds = none)
    (states : ∀ p, (s'.procs p).state = (s.procs p).state) (np : s'.np = s.np)
    (runs : cpu.code.runs = (s.cpus c).code.runs) (leaves : cpu.code.leaves = none) : Inv s' := by
  refine inv.goOn on (fun p c' => ?_) states np runs (by simp [leaves])
  have others : ∀ c', c' ≠ c → (s.cpus c').code.holds ≠ some q := by
    intro c' other there
    rcases turn with ⟨free, -, -⟩ | ⟨here, -⟩
    · have held := (inv.lock q c').mpr there
      rw [free] at held
      cases held
    · exact other (inv.lock_inj there here)
  rw [locks]
  by_cases at_ : p = q
  · rw [at_, Function.update_self]
    refine on.each (P := fun c' cpu' => (if cpu.code.holds = some q then some c else none) =
      some c' ↔ cpu'.code.holds = some q) ?_ ?_ c'
    · split <;> simp_all
    · intro c' other
      split
      · simp [others c' other, Ne.symm other]
      · simp [others c' other]
  · rw [Function.update_of_ne at_]
    refine on.each (P := fun c' cpu' => s.lock p = some c' ↔ cpu'.code.holds = some p) ?_ ?_ c'
    · have away : cpu.code.holds ≠ some p ∧ (s.cpus c).code.holds ≠ some p := by
        rcases turn with ⟨-, before, after⟩ | ⟨before, after⟩ <;>
          rw [before, after] <;> simp [Ne.symm at_]
      rw [inv.lock p c]
      simp [away.1, away.2]
    · intro c' _
      exact inv.lock p c'

/-- The state of `q` changes under its lock: CPU `c` picks it, leaves it, or visits it while it
does not run. -/
theorem Inv.restate (inv : Inv s) (on : GoesOn s s' c cpu) (lock : s'.lock = s.lock)
    (here : (s.cpus c).code.holds = some q) (stays : cpu.code.holds = some q)
    (alone : ∀ c', c' ≠ c → (s.cpus c').code.runs ≠ some q)
    (states : ∀ p, p ≠ q → (s'.procs p).state = (s.procs p).state)
    (running : (s'.procs q).state = .running ↔ cpu.code.runs = some q)
    (runs : ∀ p, p ≠ q → (cpu.code.runs = some p ↔ (s.cpus c).code.runs = some p))
    (leaves : ∀ p, cpu.code.leaves = some p → p = q ∧ cpu.code.runs ≠ some q)
    (used : ∀ p r, s'.np p = some r → (s'.procs r).state = .used)
    (mine : ∀ p p' r, s'.np p = some r → s'.np p' = some r → p = p')
    (plans : ∀ t, (s.cpus c).code.runs ≠ some t → s'.np t = s.np t) : Inv s' := by
  have elsewhere : ∀ c', c' ≠ c → ∀ p, (s.cpus c').code.leaves = some p → p ≠ q := by
    rintro c' other p at_ rfl
    exact other (inv.lock_inj (Code.holds_of_leaves at_) here)
  refine ⟨?_, ?_, ?_, ?_, ?_, ?_, used, mine, ?_⟩
  · intro p c'
    rw [lock, on.same Code.holds (stays.trans here.symm)]
    exact inv.lock p c'
  · intro p
    by_cases at_ : p = q
    · rw [at_, running]
      constructor
      · intro here
        exact ⟨c, by rw [on.self]; exact here⟩
      rintro ⟨c', there⟩
      by_cases other : c' = c
      · rwa [other, on.self] at there
      · rw [on.other other] at there
        exact absurd there (alone c' other)
    · rw [states p at_, inv.running p]
      refine exists_congr fun c' => ?_
      exact on.each (P := fun c' cpu => (s.cpus c').code.runs = some p ↔ cpu.code.runs = some p)
        (runs p at_).symm (fun _ _ => Iff.rfl) c'
  · intro c1 c2 p
    by_cases at_ : p = q
    · have only : ∀ c', (s'.cpus c').code.runs = some q → c' = c := by
        intro c' there
        by_contra other
        rw [on.other other] at there
        exact alone c' other there
      rw [at_]
      intro first second
      rw [only c1 first, only c2 second]
    · have before : ∀ c', (s'.cpus c').code.runs = some p ↔ (s.cpus c').code.runs = some p :=
        on.each (P := fun c' cpu => cpu.code.runs = some p ↔ (s.cpus c').code.runs = some p)
          (runs p at_) fun _ _ => Iff.rfl
      rw [before, before]
      exact inv.once c1 c2 p
  · refine on.each (P := fun _ cpu => ∀ p, cpu.code.leaves = some p →
      (s'.procs p).state ≠ .running) ?_ fun c' other p at_ => ?_
    · intro p at_
      obtain ⟨rfl, stopped⟩ := leaves p at_
      exact fun now => stopped (running.mp now)
    · rw [states p (elsewhere c' other p at_)]
      exact inv.leaves c' p at_
  · exact on.each (P := fun _ cpu => cpu.proc = cpu.code.proc) on.proc fun c' _ => inv.proc c'
  · exact on.each (P := fun _ cpu => ∀ p, cpu.code.away = some p → cpu.context = some p) on.away
      fun c' _ => inv.away c'
  · refine on.each (P := fun _ cpu => ∀ t q job, cpu.code = .thread t (.held q job) →
      job.allowed s' t q = true) on.plan fun c' other t r job at_ => ?_
    rw [Job.allowed_congr (plans t ?_)]
    · exact inv.plan c' t r job at_
    · intro runs
      refine other (inv.once c' c t ?_ runs)
      rw [at_]
      rfl

end Xv6.Sched
