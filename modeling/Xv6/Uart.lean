import Mathlib.Data.Fintype.Card
import Xv6.Lib.Monitor
import Xv6.Lib.Transition

/-!
# The UART

Output through `kernel/uart.c`: `uartwrite` of any number of processes, `uartputc_sync` on any
number of CPUs, and the interrupt handler `uartintr`. The device takes what is written to `THR` into
a FIFO (`FCR_FIFO_ENABLE`). `LSR_TX_IDLE` says that the FIFO is empty; when it gets empty the device
asks for an interrupt, until `ISR` has been read or `THR` written.

The handler runs on one CPU at a time, and also when there is input. A CPU is in one call of
`uartputc_sync` at most, with interrupts off; it takes no lock, so that the others run between its
two accesses to the device. `sleep` and `wakeup`, under `tx_lock`, are one step each. A kernel that
panics is outside: `uartputc_sync` with `panicked` set spins for ever.
-/

namespace Xv6.Uart

open Function (update update_self update_of_ne)
open Monitor (Held)

/-- Where a process is in `uartwrite`, with the bytes that are left, or the handler. -/
inductive Pc
  | out
  /-- about to acquire `tx_lock` -/
  | enter (rest : List UInt8)
  | loop (rest : List UInt8)
  | asleep (rest : List UInt8)
  /-- the handler, about to acquire `tx_lock` -/
  | interrupted
  /-- the handler, about to read `LSR` -/
  | reading
  /-- the handler, which has seen `LSR_TX_IDLE` -/
  | idle
  | leaving
  deriving DecidableEq

namespace Pc

def inside : Pc → Bool
  | loop _ | reading | idle | leaving => true
  | _ => false

def wakeup : Pc → Pc
  | asleep rest => enter rest
  | pc => pc

/-- The handler is going to look for sleeping processes, if the FIFO is empty. -/
@[simp] def Checks : Pc → Prop
  | interrupted | reading | idle => True
  | _ => False

end Pc

structure State (n : Nat) (P : Type) where
  /-- who has `tx_lock`: a process, or the handler, which is `none` -/
  txLock : Option (Option P) := none
  txBusy : Bool := false
  pc : Option P → Pc := fun _ => .out
  /-- the byte of a call of `uartputc_sync` that has seen `LSR_TX_IDLE` -/
  sync : Fin n → Option UInt8 := fun _ => none
  fifo : List UInt8 := []
  /-- the device asks for an interrupt -/
  irq : Bool := false

inductive Action (n : Nat) (P : Type)
  | uartwrite (p : P) (buf : List UInt8)
  /-- the next statement of a process or of the handler -/
  | run (t : Option P)
  /-- `kkill` of a process that sleeps -/
  | kill (p : P)
  /-- `uartintr`, up to `ReadReg(ISR)`; `ack` if that is about the transmitter -/
  | uartintr (ack : Bool)
  /-- `uartputc_sync` leaves its loop. -/
  | uartputcSync (i : Fin n) (c : UInt8)
  /-- `uartputc_sync` writes to `THR`. -/
  | sync (i : Fin n)
  /-- The device sends a byte. -/
  | send

section Exec

variable {n : Nat} {P : Type} [DecidableEq P]

namespace State

/-- `WriteReg(THR, c)` -/
def writeThr (s : State n P) (c : UInt8) : State n P :=
  { s with fifo := s.fifo ++ [c], irq := false }

def goes (s : State n P) (t : Option P) (pc : Pc) : State n P :=
  { s with pc := update s.pc t pc }

def acquire (s : State n P) (t : Option P) (pc : Pc) : Option (State n P) :=
  if s.txLock = none then some { s.goes t pc with txLock := some t } else none

def release (s : State n P) (t : Option P) (pc : Pc) : State n P :=
  { s.goes t pc with txLock := none }

def run (s : State n P) (t : Option P) : Option (State n P) :=
  match s.pc t with
  | .enter rest => s.acquire t (.loop rest)
  | .loop [] => some (s.release t .out)
  | .loop (c :: rest) =>
    if s.txBusy then some (s.release t (.asleep (c :: rest)))
    else some { (s.writeThr c).goes t (.loop rest) with txBusy := true }
  | .interrupted => s.acquire t .reading
  | .reading => some (s.goes t (if s.fifo = [] then .idle else .leaving))
  | .idle => some ({ s with txBusy := false, pc := fun q => (s.pc q).wakeup }.goes t .leaving)
  | .leaving => some (s.release t .out)
  | .out | .asleep _ => none

end State

def exec (s : State n P) : Action n P → Option (State n P × Unit)
  | .uartwrite p buf =>
    match s.pc (some p) with
    | .out => some (s.goes (some p) (.enter buf), ())
    | _ => none
  | .run t => (s.run t).map (·, ())
  | .kill p =>
    match s.pc (some p) with
    | .asleep rest => some (s.goes (some p) (.enter rest), ())
    | _ => none
  | .uartintr ack =>
    match s.pc none with
    | .out => some ({ s.goes none .interrupted with irq := s.irq && !ack }, ())
    | _ => none
  | .uartputcSync i c =>
    if s.sync i = none ∧ s.fifo = [] then some ({ s with sync := update s.sync i (some c) }, ())
    else none
  | .sync i =>
    match s.sync i with
    | some c => some ({ s.writeThr c with sync := update s.sync i none }, ())
    | none => none
  | .send =>
    match s.fifo with
    | [] => none
    | _ :: rest => some ({ s with fifo := rest, irq := s.irq || rest.isEmpty }, ())

def system (n : Nat) (P : Type) [DecidableEq P] : Lts (State n P) (Action n P × Unit) :=
  Lts.ofExec (· = {}) exec

end Exec

variable {n : Nat} {P : Type} {s s' : State n P}

/-- The number of CPUs that have seen `LSR_TX_IDLE` and not written yet. -/
def about (sync : Fin n → Option UInt8) : Nat := (Finset.univ.filter fun i => (sync i).isSome).card

structure Inv (s : State n P) : Prop where
  held : Held Pc.inside s.txLock s.pc
  asleep : ∀ t rest, s.pc t = .asleep rest → s.txBusy = true
  coming : s.txBusy = true → s.fifo ≠ [] ∨ s.irq = true ∨ ∃ t, (s.pc t).Checks
  room : s.fifo.length + about s.sync ≤ n + 1
  /-- There is room for a byte of `uartwrite`. -/
  spare : s.txBusy = false ∨ (∃ t, s.pc t = .idle) → s.fifo.length + about s.sync ≤ n

theorem about_le (sync : Fin n → Option UInt8) : about sync ≤ n :=
  (Finset.card_le_univ _).trans_eq (Fintype.card_fin n)

/-- A CPU that was about to write has done so. -/
theorem about_none (sync : Fin n → Option UInt8) (idle : (sync i).isSome) :
    about (update sync i none) + 1 = about sync := by
  have left : (Finset.univ.filter fun j => (update sync i none j).isSome) =
      (Finset.univ.filter fun j => (sync j).isSome).erase i := by
    ext j
    rw [Finset.mem_erase, Finset.mem_filter, Finset.mem_filter]
    by_cases here : j = i
    · simp [here]
    · simp [here]
  rw [about, left]
  exact Finset.card_erase_add_one (Finset.mem_filter.mpr ⟨Finset.mem_univ i, idle⟩)

/-- A step of the device, or of `uartputc_sync`. -/
theorem Inv.device (inv : Inv s) (sync : Fin n → Option UInt8) {fifo : List UInt8} {irq : Bool}
    (coming : s.fifo ≠ [] ∨ s.irq = true → fifo ≠ [] ∨ irq = true)
    (sum : fifo.length + about sync ≤ max n (s.fifo.length + about s.sync)) :
    Inv { s with sync := sync, fifo := fifo, irq := irq } := by
  have room := inv.room
  refine ⟨inv.held, inv.asleep, fun busy => ?_, by dsimp only; omega, fun ready => ?_⟩
  · rw [← or_assoc]
    exact (or_assoc.mpr (inv.coming busy)).imp_left coming
  · have spare := inv.spare ready
    dsimp only
    omega

section Steps

variable [DecidableEq P] {t : Option P} {pc : Pc}

/-- A step that moves one thread, and may take or drop the lock. -/
theorem Inv.goes (inv : Inv s) {lock : Option (Option P)}
    (held : Held Pc.inside lock (update s.pc t pc))
    (asleep : ∀ rest, pc = .asleep rest → s.txBusy = true)
    (checks : (s.pc t).Checks → pc.Checks ∨ s.fifo ≠ [])
    (idle : pc = .idle → s.fifo = []) : Inv { s.goes t pc with txLock := lock } := by
  have self : update s.pc t pc t = pc := update_self ..
  have other {q : Option P} (ne : q ≠ t) : update s.pc t pc q = s.pc q := update_of_ne ne ..
  refine ⟨held, fun q rest sleeps => ?_, fun busy => ?_, inv.room, fun ready => ?_⟩
  · by_cases here : q = t
    · subst here
      exact asleep rest (self.symm.trans sleeps)
    · exact inv.asleep q rest ((other here).symm.trans sleeps)
  · rcases inv.coming busy with some | irq | ⟨q, there⟩
    · exact .inl some
    · exact .inr (.inl irq)
    · by_cases here : q = t
      · subst here
        exact (checks there).symm.imp_right fun more => .inr ⟨q, self.symm.subst more⟩
      · exact .inr (.inr ⟨q, (other here).symm.subst there⟩)
  · rcases ready with free | ⟨q, there⟩
    · exact inv.spare (.inl free)
    · by_cases here : q = t
      · subst here
        have empty : s.fifo = [] := idle (self.symm.trans there)
        show s.fifo.length + about s.sync ≤ n
        rw [empty, List.length_nil, Nat.zero_add]
        exact about_le s.sync
      · exact inv.spare (.inr ⟨q, (other here).symm.trans there⟩)

theorem Inv.acquire (inv : Inv s) (run : s.acquire t pc = some s')
    (quiet : ∀ rest, pc ≠ .asleep rest) (checks : (s.pc t).Checks → pc.Checks) (idle : pc ≠ .idle) :
    Inv s' := by
  unfold State.acquire at run
  split at run <;> cases run
  next free =>
  exact inv.goes (inv.held.acquire free) (fun rest is => absurd is (quiet rest))
    (fun there => .inl (checks there)) fun is => absurd is idle

theorem Inv.writes (inv : Inv s) (here : s.pc t = .loop (c :: rest)) (free : s.txBusy = false) :
    Inv { (s.writeThr c).goes t (.loop rest) with txBusy := true } := by
  have mine := inv.held.here here rfl
  have spare := inv.spare (.inl free)
  refine ⟨inv.held.goes fun _ => mine, fun _ _ _ => rfl, fun _ => .inl ?_, ?_, ?_⟩
  · exact List.append_ne_nil_of_right_ne_nil _ nofun
  · show (s.fifo ++ [c]).length + about s.sync ≤ n + 1
    rw [List.length_append, List.length_singleton]
    omega
  · rintro (busy | ⟨q, there⟩)
    · cases busy
    · -- the handler does not have the lock
      have away : update s.pc t (.loop rest) q ≠ .idle := by
        refine inv.held.all (c := .loop rest) (K := (· ≠ Pc.idle)) (.inl mine) ?_ nofun q
        rintro _ out rfl
        cases out
      exact absurd there away

theorem Inv.wakes (inv : Inv s) (here : s.pc t = .idle) :
    Inv ({ s with txBusy := false, pc := fun q => (s.pc q).wakeup }.goes t .leaving) := by
  have mine := inv.held.here here rfl
  have held : Held Pc.inside s.txLock fun q => (s.pc q).wakeup := by
    intro q within
    refine inv.held q ?_
    cases pc : s.pc q <;> simp_all [Pc.wakeup, Pc.inside]
  refine ⟨held.goes fun _ => mine, fun q rest sleeps => ?_, nofun, inv.room,
    fun _ => inv.spare (.inr ⟨t, here⟩)⟩
  have awake : update (fun q => (s.pc q).wakeup) t .leaving q ≠ .asleep rest := by
    refine Monitor.forall_goes (c := .leaving) (K := (· ≠ Pc.asleep rest)) (fun q => ?_) nofun q
    cases s.pc q <;> nofun
  exact absurd sleeps awake

theorem Inv.run (inv : Inv s) (run : s.run t = some s') : Inv s' := by
  have release {pc : Pc} (mine : s.txLock = some t) (out : pc.inside = false)
      (asleep : ∀ rest, pc = .asleep rest → s.txBusy = true) (checks : ¬ (s.pc t).Checks)
      (idle : pc ≠ .idle) : Inv (s.release t pc) :=
    inv.goes (inv.held.release mine out) asleep (fun there => absurd there checks)
      fun is => absurd is idle
  unfold State.run at run
  split at run
  · next here => exact inv.acquire run nofun (by simp [here]) nofun
  · next here =>
    cases run
    exact release (inv.held.here here rfl) rfl nofun (by simp [here]) nofun
  · next c rest here =>
    split at run <;> cases run
    · next busy =>
      exact release (inv.held.here here rfl) rfl (fun _ _ => busy) (by simp [here]) nofun
    · next free => exact inv.writes here (Bool.eq_false_iff.mpr free)
  · next here => exact inv.acquire run nofun (fun _ => trivial) nofun
  · next here =>
    cases run
    have mine := inv.held.here here rfl
    -- a handler that sees bytes left leaves, as the last of them asks for an interrupt
    refine inv.goes (inv.held.goes fun _ => mine) ?_ ?_ ?_
    all_goals split
    · nofun
    · nofun
    · exact fun _ => .inl trivial
    · next some => exact fun _ => .inr some
    · next empty => exact fun _ => empty
    · nofun
  · next here =>
    cases run
    exact inv.wakes here
  · next here =>
    cases run
    exact release (inv.held.here here rfl) rfl nofun (by simp [here]) nofun
  · cases run
  · cases run

theorem Inv.step (inv : Inv s) {a : Action n P} (step : exec s a = some (s', ())) : Inv s' := by
  have enters {t : Option P} {rest : List UInt8} (checks : ¬ (s.pc t).Checks) :
      Inv (s.goes t (.enter rest)) :=
    inv.goes (inv.held.goes nofun) nofun (fun there => absurd there checks) nofun
  unfold exec at step
  split at step
  · split at step <;> cases step
    next here => exact enters (by simp [here])
  · obtain ⟨s'', run, ⟨⟩⟩ := Option.map_eq_some_iff.mp step
    exact inv.run run
  · split at step <;> cases step
    next here => exact enters (by simp [here])
  · split at step <;> cases step
    have moved : Inv (s.goes none .interrupted) :=
      inv.goes (inv.held.goes nofun) nofun (fun _ => .inl trivial) nofun
    refine ⟨moved.held, moved.asleep, fun _ => .inr (.inr ⟨none, ?_⟩), moved.room, moved.spare⟩
    show (update s.pc none .interrupted none).Checks
    rw [update_self]
    trivial
  · split at step <;> cases step
    next ready =>
    refine inv.device _ id ?_
    rw [ready.2, List.length_nil, Nat.zero_add]
    exact (about_le _).trans (le_max_left _ _)
  · split at step <;> cases step
    next c idle =>
    refine inv.device _ (fun _ => .inl (List.append_ne_nil_of_right_ne_nil _ nofun)) ?_
    have fewer := about_none s.sync (by rw [idle]; rfl)
    rw [State.writeThr, List.length_append, List.length_singleton]
    omega
  · split at step <;> cases step
    next c rest fifo =>
    refine inv.device _ (fun _ => ?_) ?_
    · cases rest with
      | nil => exact .inr (Bool.or_true _)
      | cons => exact .inl nofun
    · rw [fifo, List.length_cons]
      omega

/-- **Output keeps pace**: on `n` CPUs the FIFO never has to take more than `n + 1` bytes, and a
process sleeps in `uartwrite` only while there are bytes to send, or an interrupt is on its way. -/
theorem uart_keeps_pace (reach : (system n P).Reachable s) :
    s.fifo.length ≤ n + 1 ∧ ∀ p rest, s.pc (some p) = .asleep rest →
      s.txBusy = true ∧ (s.fifo ≠ [] ∨ s.irq = true ∨ ∃ t, (s.pc t).Checks) := by
  have inv : Inv s := by
    refine reach.invariant ?_ fun s a s' inv step => inv.step step
    rintro s rfl
    refine ⟨nofun, nofun, nofun, ?_, fun _ => ?_⟩
    · exact (Nat.zero_add _).trans_le ((about_le _).trans (Nat.le_succ n))
    · exact (Nat.zero_add _).trans_le (about_le _)
  refine ⟨(Nat.le_add_right _ _).trans inv.room, fun p rest sleeps => ?_⟩
  have busy := inv.asleep _ rest sleeps
  exact ⟨busy, inv.coming busy⟩

/-- A process has found the device free, as has the CPU in `uartputc_sync`. -/
theorem uart_keeps_pace_full : ∃ s, (system 1 Unit).Reachable s ∧ s.fifo = [66, 65] ∧
    s.pc (some ()) = .asleep [67] ∧ s.fifo.length ≤ 2 ∧ s.txBusy = true := by
  obtain ⟨s, reach, fifo, sleeps⟩ : ∃ s, (system 1 Unit).Reachable s ∧ s.fifo = [66, 65] ∧
      s.pc (some ()) = .asleep [67] :=
    Lts.exists_of_run (by rfl)
      [.uartputcSync 0 65, .uartwrite () [66, 67], .run (some ()), .run (some ()), .sync 0,
        .run (some ())] (by decide +kernel)
  obtain ⟨bound, awaits⟩ := uart_keeps_pace reach
  exact ⟨s, reach, fifo, sleeps, bound, (awaits () [67] sleeps).1⟩

end Steps

end Xv6.Uart
