import Xv6.Wait.Sound

/-!
# Whom `kkill` kills

`kkill` looks for a pid in the whole table and does not ask whether the slot it finds is in
use. The pid of a slot that is not in use is 0, and `allocproc` does not reset `killed`: after
`kill(0)` the next child is killed before it has run. With any other pid only the
process of that pid is killed.

`Turn` says what one step can do to one slot of the table. The results here and in
`Xv6.Wait.Reuse` follow from it slot by slot.
-/

namespace Xv6.Wait

open Function

variable {s s' : State} {p q : Slot} {e : Option Effect} {l : Label}

/-! ## What a step does to one slot -/

/-- What a step of the system can make of the process in slot `q` and of `nextpid`. -/
inductive Turn (s : State) (q : Slot) : Proc → Nat → Prop
  | same : Turn s q (s.procs q) s.nextpid
  /-- `allocproc`, with the rest of `kfork` or `kclone`. -/
  | taken {thread : Bool} : (s.procs q).state = .unused →
      Turn s q (s.newProc q thread) (s.nextpid + 1)
  | undone {thread : Bool} : (s.procs q).state = .unused →
      Turn s q (s.newProc q thread).cleared (s.nextpid + 1)
  | named {p : Slot} {pid : Nat} : s.pc p = .setParent q pid →
      Turn s q { s.procs q with parent := some p } s.nextpid
  | started {p : Slot} {pid : Nat} : s.pc p = .setRunnable q pid →
      Turn s q { s.procs q with state := .runnable } s.nextpid
  | adopted {p : Slot} : (s.procs q).parent = some p →
      Turn s q { s.procs q with parent := some initproc } s.nextpid
  | woken {chan : Option Chan} : Turn s q ((s.procs q).wakeup chan) s.nextpid
  | killed {p : Slot} {pid : Int} {j : Nat} : s.pc p = .kill pid j →
      ((s.procs q).pid : Int) = pid → Turn s q (s.procs q).kill s.nextpid
  | freed : (s.procs q).state = .zombie → Turn s q (s.procs q).cleared s.nextpid
  /-- The process runs, or begins or stops to. -/
  | ran {new : Proc} : (s.procs q).state = .running ∨ (s.procs q).state = .runnable →
      new.state ≠ .unused → new.state ≠ .used → new.pid = (s.procs q).pid →
      new.isThread = (s.procs q).isThread → Turn s q new s.nextpid

/-- A step changes one slot of the table. -/
def Turns (s s' : State) : Prop :=
  ∃ q new, Turn s q new s'.nextpid ∧ s'.procs = update s.procs q new

theorem Turns.same (p : Slot) (procs : s'.procs = s.procs) (nextpid : s'.nextpid = s.nextpid) :
    Turns s s' := by
  refine ⟨p, s.procs p, ?_, ?_⟩
  · rw [nextpid]
    exact .same
  · rw [update_eq_self, procs]

theorem Turns.ran (procs : s'.procs = update s.procs q new) (nextpid : s'.nextpid = s.nextpid)
    (awake : (s.procs q).state = .running ∨ (s.procs q).state = .runnable)
    (state : new.state ≠ .unused ∧ new.state ≠ .used)
    (kept : new.pid = (s.procs q).pid ∧ new.isThread = (s.procs q).isThread) : Turns s s' :=
  ⟨q, new, nextpid ▸ .ran awake state.1 state.2 kept.1 kept.2, procs⟩

theorem RunStep.turns (onCpu : s.onCpu p = true) (step : RunStep s p s' e) : Turns s s' := by
  have running (awake : s.pc p ≠ .zombieHeld ∧ s.pc p ≠ .zombieFree) :
      (s.procs p).state = .running := by
    rcases State.onCpu_iff.mp onCpu with running | held | held
    · exact running
    · exact absurd held awake.1
    · exact absurd held awake.2
  cases step with
  | allocated _ unused => exact ⟨_, _, .taken unused, rfl⟩
  | allocFailed _ unused => exact ⟨_, _, .undone unused, rfl⟩
  | parentSet point _ => exact ⟨_, _, .named point, rfl⟩
  | started point => exact ⟨_, _, .started point, rfl⟩
  | adopted _ child => exact ⟨_, _, .adopted child, rfl⟩
  | wakeupOther _ _ _ => exact ⟨_, _, .woken, rfl⟩
  | reaped _ _ zombie _ => exact ⟨_, _, .freed zombie, rfl⟩
  | killed point _ named => exact ⟨_, _, .killed point named, rfl⟩
  | resumed point _ | sleepReturn point =>
    have here := running (by simp [point])
    exact .ran rfl rfl (.inl here) (by simp [here]) ⟨rfl, rfl⟩
  | exited point | sleepSwitch point =>
    exact .ran rfl rfl (.inl (running (by simp [point]))) (by simp) ⟨rfl, rfl⟩
  | _ => exact .same p rfl rfl

theorem Step.turns (step : Step s l s') : Turns s s' := by
  cases step with
  | run onCpu step => exact step.turns onCpu
  | enter => exact .same 0 rfl rfl
  | dispatch ready => exact .ran rfl rfl (.inr ready) (by simp) ⟨rfl, rfl⟩
  | preempt here _ | block here _ => exact .ran rfl rfl (.inl here) (by simp) ⟨rfl, rfl⟩
  | tick => exact .same 0 rfl rfl
  | setkilled here =>
    exact .ran rfl rfl (.inl here) (by simp [here]) ⟨rfl, rfl⟩
  | unblock => exact ⟨_, _, .woken, rfl⟩

/-! ## Whom a call of `kkill` finds -/

/-- `kkill(pid)` from its first slot to its return; true is 0 and false is -1. -/
def kkill (s : State) (pid : Int) : State × Bool :=
  match (List.finRange NPROC).find? fun q => ((s.procs q).pid : Int) = pid with
  | some q => (s.setProc q (s.procs q).kill, true)
  | none => (s, false)

/-- The process in slot `q` has this pid. -/
def State.Named (s : State) (pid : Int) (q : Slot) : Prop :=
  (s.procs q).state ≠ .unused ∧ ((s.procs q).pid : Int) = pid
  deriving Decidable

/-- `kkill(pid)` is about the process with that pid only, called in this state or, where other
processes run in between, at each slot it looks at. -/
structure KillsNamed (s : State) (pid : Int) : Prop where
  found : (kkill s pid).2 = true ↔ ∃ q, s.Named pid q
  kills : ∀ q, s.Named pid q → (kkill s pid).1 = s.setProc q (s.procs q).kill
  nothing : (∀ q, ¬ s.Named pid q) → (kkill s pid).1 = s
  slot : ∀ p q ok, s.pc p = .kill pid q.val → ∀ s' e, exec s (.run p ok) = some (s', e) →
    if s.Named pid q then
      e = some (.killed p true) ∧ s' = (s.setProc q (s.procs q).kill).setPc p .user
    else e = none ∧ s' = s.setPc p (.kill pid (q.val + 1))

/-- A child that becomes `RUNNABLE` has been killed only if `kkill` was called with its pid,
one of `asked`. -/
def StartsUnkilled (s : State) (asked : List Int) : Prop :=
  ∀ p np pid ok, s.pc p = .setRunnable np pid → ∀ s' e, exec s (.run p ok) = some (s', e) →
    (s'.procs np).killed = true → ((s'.procs np).pid : Int) ∈ asked

/-- The pids that `kkill` has been called with. -/
def noteKill (asked : List Int) (_ : State) (l : Label) : List Int :=
  match l.1 with
  | .call _ (.kill pid) => pid :: asked
  | _ => asked

def asking : Lts (State × List Int) Label := system.observed [] noteKill

/-- The step does not call `kkill(0)`. -/
def SparesZero (_ : State) (l : Label) : Prop := ∀ p, l.1 ≠ .call p (.kill 0)
  deriving Decidable

/-- `initproc` calls `kill(0)`, which succeeds, and forks. -/
def killZeroFork : List Action :=
  [.dispatch 0, .call 0 (.kill 0), .run 0 true, .run 0 true, .call 0 .fork] ++
    List.replicate 3 (.run 0 true)

/-- `kill(0)` marks the unused slot 1; the child there, with pid 2, starts killed. -/
theorem kill_zero_hits_unused :
    ¬ ∀ s asked, asking.Reachable (s, asked) →
      (∀ pid, KillsNamed s pid) ∧ StartsUnkilled s asked := by
  intro always
  obtain ⟨x, reach, asked, point, last⟩ : ∃ x, asking.Reachable x ∧ x.2 = [0] ∧
      x.1.pc 0 = .setRunnable 1 2 ∧ ((exec x.1 (.run 0 true)).map fun y =>
        ((y.1.procs 1).killed, (y.1.procs 1).pid)) = some (true, 2) :=
    Lts.exists_of_replay (fun _ _ => True) (by rfl) killZeroFork (by decide +kernel)
  obtain ⟨y, step, killed⟩ := Option.map_eq_some_iff.mp last
  simp only [Prod.mk.injEq] at killed
  have own := (always _ _ reach).2 0 1 2 true point y.1 y.2 step killed.1
  rw [killed.2, asked] at own
  exact absurd own (by decide)

/-! ## With a pid other than 0 -/

/-- What holds of a slot while no one has called `kill(0)`. -/
structure Marked (asked : List Int) (nextpid : Nat) (P : Proc) : Prop where
  unused : P.state = .unused → P.pid = 0 ∧ P.killed = false
  pid : P.state ≠ .unused → 0 < P.pid ∧ P.pid < nextpid
  used : P.state = .used → P.killed = true → (P.pid : Int) ∈ asked

structure Marks (s : State) (asked : List Int) : Prop where
  sound : Sound s
  slot : ∀ q, Marked asked s.nextpid (s.procs q)
  inj : ∀ q r, (s.procs q).state ≠ .unused → (s.procs r).state ≠ .unused →
    (s.procs q).pid = (s.procs r).pid → q = r
  next : 0 < s.nextpid
  killer : ∀ p pid j, s.pc p = .kill pid j → pid ≠ 0 ∧ pid ∈ asked

theorem Marks.named (marks : Marks s asked) (nonzero : pid ≠ 0)
    (same : ((s.procs q).pid : Int) = pid) : s.Named pid q := by
  refine ⟨fun unused => nonzero ?_, same⟩
  rw [← same, ((marks.slot q).unused unused).1]
  rfl

theorem Marks.killsNamed (marks : Marks s asked) (nonzero : pid ≠ 0) : KillsNamed s pid := by
  have missing {q : Slot} (none : (List.finRange NPROC).find?
      (fun q => ((s.procs q).pid : Int) = pid) = none) : ¬ s.Named pid q := by
    intro named
    have differs := List.find?_eq_none.mp none q (List.mem_finRange q)
    exact differs (decide_eq_true named.2)
  have hit {q : Slot} (some : (List.finRange NPROC).find?
      (fun q => ((s.procs q).pid : Int) = pid) = some q) : s.Named pid q := by
    have same := List.find?_some some
    exact marks.named nonzero (of_decide_eq_true same)
  constructor
  · unfold kkill
    split
    · next q found => exact ⟨fun _ => ⟨q, hit found⟩, fun _ => rfl⟩
    · next none => exact ⟨nofun, fun ⟨q, named⟩ => (missing none named).elim⟩
  · intro r named
    unfold kkill
    split
    · next q found =>
      have here := hit found
      rw [marks.inj q r here.1 named.1 (Int.ofNat.inj (here.2.trans named.2.symm))]
    · next none => exact (missing none named).elim
  · intro nobody
    unfold kkill
    split
    · next q found => exact (nobody q (hit found)).elim
    · rfl
  · intro p q ok point s' e run
    simp only [exec, runProc, point, dif_pos q.isLt, Fin.eta] at run
    split at run
    · split at run
      · cases run
      split at run
      · next same =>
        rw [if_pos (marks.named nonzero same)]
        cases run
        exact ⟨rfl, rfl⟩
      · next differs =>
        rw [if_neg fun named => differs named.2]
        cases run
        exact ⟨rfl, rfl⟩
    · cases run

theorem Marks.startsUnkilled (marks : Marks s asked) : StartsUnkilled s asked := by
  intro p np pid ok point s' e run killed
  have used := marks.sound.child p np (by rw [point]; rfl)
  simp only [exec, runProc, point] at run
  split at run
  · split at run <;> cases run
    rw [State.setPc_procs, State.setProc_procs, if_pos rfl] at killed ⊢
    exact (marks.slot np).used used killed
  · cases run

/-! ## The steps keep the marks -/

theorem Marked.mono (marked : Marked asked nextpid P) (more : ∀ pid ∈ asked, pid ∈ asked')
    (le : nextpid ≤ nextpid') : Marked asked' nextpid' P where
  unused := marked.unused
  pid inUse := ⟨(marked.pid inUse).1, Nat.lt_of_lt_of_le (marked.pid inUse).2 le⟩
  used used killed := more _ (marked.used used killed)

theorem Marked.cleared (P : Proc) : Marked asked nextpid P.cleared :=
  ⟨fun _ => ⟨rfl, rfl⟩, fun inUse => absurd rfl inUse, nofun⟩

theorem Marks.turn (marks : Marks s asked) (turn : Turn s q new nextpid) :
    s.nextpid ≤ nextpid ∧ Marked asked nextpid new ∧ (new.state ≠ .unused →
      new.pid = s.nextpid ∨ (s.procs q).state ≠ .unused ∧ new.pid = (s.procs q).pid) := by
  have old := marks.slot q
  cases turn with
  | same => exact ⟨Nat.le_refl _, old, fun inUse => .inr ⟨inUse, rfl⟩⟩
  | @taken thread unused =>
    refine ⟨Nat.le_succ _, ⟨nofun, fun _ => ⟨marks.next, Nat.lt_succ_self _⟩, ?_⟩,
      fun _ => .inl rfl⟩
    intro _ killed
    have clean := (old.unused unused).2
    rw [show (s.newProc q thread).killed = (s.procs q).killed from rfl, clean] at killed
    cases killed
  | undone => exact ⟨Nat.le_succ _, .cleared _, fun inUse => absurd rfl inUse⟩
  | freed => exact ⟨Nat.le_refl _, .cleared _, fun inUse => absurd rfl inUse⟩
  | named point | adopted =>
    exact ⟨Nat.le_refl _, ⟨old.unused, old.pid, old.used⟩, fun inUse => .inr ⟨inUse, rfl⟩⟩
  | started point =>
    have used := marks.sound.child _ q (by rw [point]; rfl)
    have inUse : (s.procs q).state ≠ .unused := by rw [used]; exact ProcState.noConfusion
    exact ⟨Nat.le_refl _, ⟨nofun, fun _ => old.pid inUse, nofun⟩,
      fun _ => .inr ⟨inUse, rfl⟩⟩
  | woken =>
    unfold Proc.wakeup
    split
    · next asleep =>
      have inUse : (s.procs q).state ≠ .unused := by rw [asleep.1]; exact ProcState.noConfusion
      exact ⟨Nat.le_refl _, ⟨nofun, fun _ => old.pid inUse, nofun⟩,
        fun _ => .inr ⟨inUse, rfl⟩⟩
    · exact ⟨Nat.le_refl _, old, fun inUse => .inr ⟨inUse, rfl⟩⟩
  | @killed p pid j point same =>
    obtain ⟨nonzero, asks⟩ := marks.killer p pid j point
    have inUse := (marks.named nonzero same).1
    refine ⟨Nat.le_refl _, ⟨fun unused => ?_, fun _ => old.pid inUse, fun _ _ => ?_⟩,
      fun _ => .inr ⟨inUse, rfl⟩⟩
    · exact absurd ((Proc.kill_unused _).mp unused) inUse
    · rw [Proc.kill, same]
      exact asks
  | ran awake inUse notUsed pid _ =>
    have was : (s.procs q).state ≠ .unused := by
      rcases awake with here | here
      · rw [here]; exact ProcState.noConfusion
      · rw [here]; exact ProcState.noConfusion
    refine ⟨Nat.le_refl _, ⟨fun unused => absurd unused inUse, fun _ => ?_, fun used =>
      absurd used notUsed⟩, fun _ => .inr ⟨was, pid⟩⟩
    rw [pid]
    exact old.pid was

theorem Step.killer (step : Step s l s') (point : s'.pc r = .kill pid j) :
    (∃ j, s.pc r = .kill pid j) ∨ l.1 = .call r (.kill pid) := by
  cases step with
  | run onCpu step =>
    left
    cases step with
    | lock spins _ =>
      have := Pc.start_of_spins spins
      grind
    | @wakeupDone _ _ child => cases child <;> grind [Pc.afterWakeup]
    | _ => grind
  | @enter p c pc _ _ entry =>
    by_cases here : r = p
    · cases c <;> simp_all [Wait.enter]
    · rw [State.setPc_pc, if_neg here] at point
      exact .inl ⟨j, point⟩
  | @block p addr pc _ entry =>
    obtain ⟨⟨x, rfl⟩, -⟩ := Pc.of_block entry
    grind
  | _ => exact .inl ⟨j, point⟩

theorem Marks.step (marks : Marks s asked) (spares : SparesZero s l) (step : Step s l s') :
    Marks s' (noteKill asked s l) := by
  obtain ⟨r, new, turn, procs⟩ := step.turns
  obtain ⟨le, marked, pid⟩ := marks.turn turn
  have more (pid : Int) (mem : pid ∈ asked) : pid ∈ noteKill asked s l := by
    unfold noteKill
    split
    · exact List.mem_cons_of_mem _ mem
    · exact mem
  -- the pid of the slot that has changed is no other slot's
  have fresh (q : Slot) (other : q ≠ r) (inUse : (s.procs q).state ≠ .unused)
      (inUse' : new.state ≠ .unused) : (s.procs q).pid ≠ new.pid := by
    intro same
    rcases pid inUse' with isNew | ⟨was, kept⟩
    · exact absurd ((marks.slot q).pid inUse).2 (by omega)
    · exact other (marks.inj q r inUse was (same.trans kept))
  refine ⟨step.sound marks.sound, fun q => ?_, fun q q' inUse inUse' same => ?_,
    Nat.lt_of_lt_of_le marks.next le, fun p pid j point => ?_⟩
  · by_cases here : q = r
    · rw [procs, here, update_self]
      exact marked.mono more (Nat.le_refl _)
    · rw [procs, update_of_ne here]
      exact (marks.slot q).mono more le
  · rw [procs] at inUse inUse' same
    by_cases here : q = r
    · by_cases here' : q' = r
      · rw [here, here']
      · rw [here, update_self] at inUse same
        rw [update_of_ne here'] at inUse' same
        exact (fresh q' here' inUse' inUse same.symm).elim
    · rw [update_of_ne here] at inUse same
      by_cases here' : q' = r
      · rw [here', update_self] at inUse' same
        exact (fresh q here inUse inUse' same).elim
      · rw [update_of_ne here'] at inUse' same
        exact marks.inj q q' inUse inUse' same
  · rcases step.killer point with ⟨j', was⟩ | called
    · exact ⟨(marks.killer p pid j' was).1, more pid (marks.killer p pid j' was).2⟩
    · refine ⟨fun zero => spares p (zero ▸ called), ?_⟩
      unfold noteKill
      rw [called]
      exact List.mem_cons_self

/-- **`kkill` kills the process it names and no other**, in every run without `kill(0)`, and no
child starts killed that was not named. -/
theorem kill_names_process {asked : List Int}
    (reach : asking.ReachableWhen (fun x l => SparesZero x.1 l) (s, asked)) :
    (∀ pid, pid ≠ 0 → KillsNamed s pid) ∧ StartsUnkilled s asked := by
  have marks : Marks s asked := by
    refine reach.invariant (P := fun x => Marks x.1 x.2) ?_ ?_
    · rintro ⟨s, asked⟩ ⟨rfl, rfl⟩
      refine ⟨sound_boot, fun q => ?_, fun q r inUse inUse' _ => ?_, Nat.succ_pos _,
        nofun⟩
      · unfold boot
        dsimp only
        split
        · exact ⟨nofun, fun _ => ⟨Nat.one_pos, by decide⟩, nofun⟩
        · exact ⟨fun _ => ⟨rfl, rfl⟩, fun inUse => absurd rfl inUse, nofun⟩
      · have only {q : Slot} (inUse : (boot.procs q).state ≠ .unused) : q = initproc := by
          by_contra other
          refine inUse ?_
          unfold boot
          dsimp only
          rw [if_neg other]
        rw [only inUse, only inUse']
    · rintro ⟨s, asked⟩ l ⟨s', asked'⟩ marks spares ⟨step, rfl⟩
      exact marks.step spares (.of_exec step)
  exact ⟨fun pid nonzero => marks.killsNamed nonzero, marks.startsUnkilled⟩

/-- `initproc` forks a child and calls `kill` with its pid. -/
theorem kill_names_process_forked : ∃ s, asking.ReachableWhen (fun x l => SparesZero x.1 l)
    (s, [2]) ∧ s.Named 2 1 ∧ ((∀ pid, pid ≠ 0 → KillsNamed s pid) ∧ StartsUnkilled s [2]) := by
  obtain ⟨⟨s, asked⟩, reach, rfl, named⟩ : ∃ x, asking.ReachableWhen
      (fun x l => SparesZero x.1 l) x ∧ x.2 = [2] ∧ x.1.Named 2 1 :=
    Lts.exists_of_replay SparesZero (by rfl) ([.dispatch 0, .call 0 .fork] ++
      List.replicate 4 (.run 0 true) ++ [.call 0 (.kill 2)]) (by decide +kernel)
  exact ⟨s, reach, named, kill_names_process reach⟩

end Xv6.Wait
