import Xv6.Log.Basic
import Mathlib.Algebra.Order.BigOperators.Group.List
import Mathlib.Algebra.Order.Ring.Nat
import Mathlib.Data.Finset.Card

/-!
# Log space

`begin_op` admits an operation only if the log has room for what is in it already and
`MAXOPBLOCKS` blocks for each operation under way. Counted operation by operation,
what is reserved and not used yet never exceeds what is left, so that an operation
always finds room for a block that is new to the log.

`log_write` checks for room before it looks whether the block is in the log already:
with the log full to the last block, it panics on a block that takes no room. The runs
below are those of the operations and of the commits between them; the panics of
`log.c` end a run.
-/

namespace Xv6.Log

open Function

inductive Panic
  /-- "too big a transaction" -/
  | tooBig
  /-- "log_write outside of trans" -/
  | outside
  /-- "log.committing" -/
  | committing
  deriving DecidableEq

structure Machine where
  state : State
  panicked : Option Panic := none

def State.logWritePanic (s : State) : Option Panic :=
  if LOGBLOCKS ≤ s.lh.length then some .tooBig
  else if s.outstanding < 1 then some .outside
  else none

/-- A step of the operations or of the commit; an operation may log any block. -/
def execOp (start : Nat) (m : Machine) (a : Action) : Option (Machine × Option Effect) :=
  if m.panicked = none then
    match a with
    | .logWrite t b data =>
      if t ∈ m.state.active then
        match m.state.logWritePanic with
        | some e => some ({ m with panicked := some e }, none)
        | none =>
          some ({ state := { m.state with
                    io := (logWriteBlock m.state.io m.state.lh b data).1
                    lh := (logWriteBlock m.state.io m.state.lh b data).2 } },
            some (.logged t b data))
      else none
    | .endOp t =>
      if t ∈ m.state.active then
        if m.state.committing then some ({ m with panicked := some .committing }, none)
        else some ({ state := endOp m.state t }, none)
      else none
    | .beginOp | .commit | .read _ | .evict _ =>
      (exec start m.state a).map fun (s, effect) => ({ state := s }, effect)
    | .crash | .recover => none
  else none

/-- No operation is under way and the log is empty. -/
structure Quiescent (m : Machine) : Prop where
  running : m.panicked = none
  phase : m.state.phase = .running
  lh : m.state.lh = []
  outstanding : m.state.outstanding = 0
  committing : m.state.committing = false
  active : m.state.active = []

/-- The blocks that each operation has logged. -/
abbrev Mine := Nat → Finset Nat

def Mine.note (mine : Mine) : Option Effect → Mine
  | some (.logged t b _) => update mine t (insert b (mine t))
  | _ => mine

/-- The log with a record of which operation has logged which blocks. -/
def execMine (start : Nat) (x : Machine × Mine) (a : Action) :
    Option ((Machine × Mine) × Option Effect) :=
  (execOp start x.1 a).map fun (m, effect) => ((m, x.2.note effect), effect)

def opSystem (start : Nat) : Lts (Machine × Mine) Label :=
  Lts.ofExec (fun x => Quiescent x.1 ∧ x.2 = fun _ => ∅) (execMine start)

/-- An operation logs at most `MAXOPBLOCKS` distinct blocks. -/
def WithinBudget (x : Machine × Mine) : Label → Prop
  | (.logWrite t b _, _) => b ∈ x.2 t ∨ (x.2 t).card < MAXOPBLOCKS
  | _ => True

instance (x : Machine × Mine) : ∀ l, Decidable (WithinBudget x l)
  | (.logWrite _ _ _, _) => inferInstanceAs (Decidable (_ ∨ _))
  | (.beginOp, _) | (.endOp _, _) | (.commit, _) | (.read _, _) | (.evict _, _) | (.crash, _)
  | (.recover, _) => .isTrue trivial

/-- The log has room, and counts the operations under way; none of them is left to log anything
while it is committed. -/
structure Reserved (start : Nat) (m : Machine) : Prop where
  room : m.state.lh.length ≤ LOGBLOCKS
  distinct : m.state.lh.Nodup
  noPanic : m.panicked ≠ some .tooBig
  outstanding : m.state.active.Nodup ∧ m.state.outstanding = m.state.active.length
  quiet : m.state.committing = true → m.state.outstanding = 0 ∧
    ∀ t b data, execOp start m (.logWrite t b data) = none

/-! ## A full log -/

/-- Operation `t` logs ten blocks of its own. -/
def fillOp (t : Nat) : List Action :=
  (List.range MAXOPBLOCKS).map fun k => .logWrite t (100 + 10 * t + k) fun _ => 0

/-- Three operations fill the log, and one of them logs a block again. -/
def logFull : List Action :=
  [.beginOp, .beginOp, .beginOp] ++ fillOp 0 ++ fillOp 1 ++ fillOp 2 ++ [.logWrite 0 100 fun _ => 1]

/-- The machine after its first start, with an empty disk. -/
def fresh : Machine where
  state := { off (fun _ _ => 0) 0 with phase := .running }

theorem fresh_quiescent : Quiescent fresh := ⟨rfl, rfl, rfl, rfl, rfl, rfl⟩

theorem absorbed_too_big :
    ¬ ∀ start x, (opSystem start).ReachableWhen WithinBudget x → Reserved start x.1 := by
  intro always
  obtain ⟨y, reach, panicked⟩ : ∃ y, (opSystem 2).ReachableWhen WithinBudget y ∧
      y.1.panicked = some .tooBig :=
    Lts.exists_of_run (s := (fresh, fun _ => ∅)) ⟨fresh_quiescent, rfl⟩ logFull
      (by decide +kernel)
  exact (always 2 y reach).noPanic panicked

/-! ## What a step does to the reservations -/

/-- No operation begins or ends, and the log changes only in a commit. -/
structure GoesOn (s s' : State) : Prop where
  ops : s'.active = s.active ∧ s'.outstanding = s.outstanding ∧ s'.nextOp = s.nextOp
  log : s'.lh = s.lh ∧ s'.committing = s.committing ∧ (s'.phase = .running ↔ s.phase = .running) ∨
    s.phase ≠ .running ∧ (s'.lh = s.lh ∨ s'.lh = []) ∧
      (s'.phase = .running ∨ s'.committing = s.committing)

/-- How `struct log` changes in a step. -/
inductive OpStep (m : Machine) : Action → Option Effect → Machine → Prop
  | beginOp {m'} (idle : m.state.committing = false)
      (room : m.state.lh.length + (m.state.outstanding + 1) * MAXOPBLOCKS ≤ LOGBLOCKS)
      (made : m' = { state := { m.state with
        outstanding := m.state.outstanding + 1, active := m.state.nextOp :: m.state.active,
        nextOp := m.state.nextOp + 1 } }) : OpStep m .beginOp none m'
  | logWrite {t b data m'} (mem : t ∈ m.state.active) (enough : m.state.logWritePanic = none)
      (made : m' = { state := { m.state with
        io := (logWriteBlock m.state.io m.state.lh b data).1
        lh := (logWriteBlock m.state.io m.state.lh b data).2 } }) :
      OpStep m (.logWrite t b data) (some (.logged t b data)) m'
  | logWritePanic {t b data e} (mem : t ∈ m.state.active)
      (panics : m.state.logWritePanic = some e) :
      OpStep m (.logWrite t b data) none { m with panicked := some e }
  | endOp {t} (mem : t ∈ m.state.active) (idle : m.state.committing = false) :
      OpStep m (.endOp t) none { state := Log.endOp m.state t }
  | endOpPanic {t} (mem : t ∈ m.state.active) (busy : m.state.committing = true) :
      OpStep m (.endOp t) none { m with panicked := some .committing }
  /-- A commit goes on, or a block is read or evicted. -/
  | other {a effect m'} (running : m'.panicked = none)
      (quiet : ∀ t b data, effect ≠ some (.logged t b data))
      (goesOn : GoesOn m.state m'.state) :
      OpStep m a effect m'

variable {start : Nat} {m m' : Machine} {mine : Mine} {a : Action} {effect : Option Effect}

theorem OpStep.of_commit (step : commit start s = some (s', effect)) (running) :
    OpStep { state := s, panicked := running } .commit effect { state := s' } := by
  unfold commit at step
  have busy : s.phase ≠ .running := by
    intro running
    rw [running] at step
    cases step
  split at step
  · split at step <;> cases step
    all_goals exact .other rfl nofun ⟨⟨rfl, rfl, rfl⟩, .inr ⟨busy, .inl rfl, .inr rfl⟩⟩
  · split at step <;> cases step
    · exact .other rfl nofun ⟨⟨rfl, rfl, rfl⟩, .inr ⟨busy, .inl rfl, .inr rfl⟩⟩
    · exact .other rfl nofun ⟨⟨rfl, rfl, rfl⟩, .inr ⟨busy, .inr rfl, .inr rfl⟩⟩
  · cases step
    exact .other rfl nofun ⟨⟨rfl, rfl, rfl⟩, .inr ⟨busy, .inl rfl, .inl rfl⟩⟩
  · cases step

theorem OpStep.of_execOp (step : execOp start m a = some (m', effect)) :
    m.panicked = none ∧ OpStep m a effect m' := by
  unfold execOp at step
  split at step
  case isFalse => cases step
  rename_i running
  refine ⟨running, ?_⟩
  split at step
  · obtain ⟨mem, made⟩ := Option.ite_none_right_eq_some.mp step
    split at made
    · next e panics =>
      cases made
      exact .logWritePanic mem panics
    · next enough =>
      cases made
      exact .logWrite mem enough rfl
  · obtain ⟨mem, made⟩ := Option.ite_none_right_eq_some.mp step
    split at made
    · next busy =>
      cases made
      exact .endOpPanic mem busy
    · next idle =>
      cases made
      exact .endOp mem (Bool.eq_false_of_not_eq_true idle)
  · obtain ⟨_, stepped, ⟨⟩⟩ := Option.map_eq_some_iff.mp step
    obtain ⟨⟨_, idle, room⟩, ⟨⟩⟩ := Option.ite_none_right_eq_some.mp stepped
    exact .beginOp (by simpa using idle) room rfl
  · obtain ⟨_, stepped, ⟨⟩⟩ := Option.map_eq_some_iff.mp step
    exact .of_commit stepped _
  · obtain ⟨_, stepped, ⟨⟩⟩ := Option.map_eq_some_iff.mp step
    obtain ⟨_, ⟨⟩⟩ := Option.ite_none_right_eq_some.mp stepped
    exact .other rfl nofun ⟨⟨rfl, rfl, rfl⟩, .inl ⟨rfl, rfl, Iff.rfl⟩⟩
  · obtain ⟨_, stepped, ⟨⟩⟩ := Option.map_eq_some_iff.mp step
    obtain ⟨_, ⟨⟩⟩ := Option.ite_none_right_eq_some.mp stepped
    exact .other rfl nofun ⟨⟨rfl, rfl, rfl⟩, .inl ⟨rfl, rfl, Iff.rfl⟩⟩
  all_goals cases step

/-- What the operations under way have reserved and not used. -/
def unused (mine : Mine) (active : List Nat) : Nat :=
  (active.map fun t => MAXOPBLOCKS - (mine t).card).sum

/-- **The reservations fit**: the log has room for what is in it and what is reserved. -/
structure Reserving (m : Machine) (mine : Mine) : Prop where
  running : m.panicked = none
  distinct : m.state.lh.Nodup
  ids : m.state.active.Nodup
  count : m.state.outstanding = m.state.active.length
  born : ∀ t ∈ m.state.active, t < m.state.nextOp
  unborn : ∀ t, m.state.nextOp ≤ t → mine t = ∅
  logged : ∀ t ∈ m.state.active, ∀ b ∈ mine t, b ∈ m.state.lh
  space : m.state.lh.length + unused mine m.state.active ≤ LOGBLOCKS
  quiet : m.state.committing = true → m.state.active = []
  phase : m.state.phase ≠ .running → m.state.committing = true

theorem Reserving.of_quiescent (idle : Quiescent m) : Reserving m fun _ => ∅ := by
  refine ⟨idle.running, ?_, ?_, ?_, ?_, fun _ _ => rfl, ?_, ?_, ?_, ?_⟩
  · rw [idle.lh]
    exact List.nodup_nil
  · rw [idle.active]
    exact List.nodup_nil
  · rw [idle.active, idle.outstanding]
    rfl
  · rw [idle.active]
    exact nofun
  · exact nofun
  · rw [idle.lh, idle.active]
    decide
  · intro _
    exact idle.active
  · intro busy
    exact absurd idle.phase busy


theorem unused_le (mine : Mine) (active : List Nat) :
    unused mine active ≤ active.length * MAXOPBLOCKS := by
  have each : ∀ n ∈ active.map fun t => MAXOPBLOCKS - (mine t).card, n ≤ MAXOPBLOCKS := by
    intro n mem
    obtain ⟨t, _, rfl⟩ := List.mem_map.mp mem
    exact Nat.sub_le _ _
  have total := List.sum_le_card_nsmul _ _ each
  rw [List.length_map] at total
  exact total

theorem unused_erase_le (mine : Mine) (active : List Nat) (t : Nat) :
    unused mine (active.erase t) ≤ unused mine active := by
  apply List.Sublist.sum_le_sum
  · exact List.erase_sublist.map _
  · intro n _
    exact Nat.zero_le n

theorem reserved_note_le (mine : Mine) (t b u : Nat) (data : Block) :
    MAXOPBLOCKS - (mine.note (some (.logged t b data)) u).card ≤ MAXOPBLOCKS - (mine u).card := by
  change MAXOPBLOCKS - (update mine t (insert b (mine t)) u).card ≤ _
  by_cases same : u = t
  · rw [same, update_self]
    exact Nat.sub_le_sub_left (Finset.card_le_card (Finset.subset_insert b (mine t))) _
  · rw [update_of_ne same]

/-- Logging a block uses up at most what is reserved, and a block that is new to the operation
uses up one block of it. -/
theorem unused_note_le (active : List Nat) (mine : Mine) (t b : Nat) (data : Block) :
    unused (mine.note (some (.logged t b data))) active ≤ unused mine active :=
  List.sum_le_sum fun u _ => reserved_note_le mine t b u data

theorem unused_note_lt (mem : t ∈ active) (new : b ∉ mine t)
    (budget : (mine t).card < MAXOPBLOCKS) (data : Block) :
    unused (mine.note (some (.logged t b data))) active < unused mine active := by
  refine List.sum_lt_sum _ _ (fun u _ => reserved_note_le mine t b u data) ⟨t, mem, ?_⟩
  change MAXOPBLOCKS - (update mine t (insert b (mine t)) t).card < _
  rw [update_self, Finset.card_insert_of_notMem new]
  omega

theorem Reserving.beginOp (inv : Reserving m mine) (idle : m.state.committing = false)
    (room : m.state.lh.length + (m.state.outstanding + 1) * MAXOPBLOCKS ≤ LOGBLOCKS) :
    Reserving { state := { m.state with
      outstanding := m.state.outstanding + 1, active := m.state.nextOp :: m.state.active,
      nextOp := m.state.nextOp + 1 } } mine := by
  have new : m.state.nextOp ∉ m.state.active := fun mem => Nat.lt_irrefl _ (inv.born _ mem)
  refine ⟨rfl, inv.distinct, List.nodup_cons.mpr ⟨new, inv.ids⟩, ?_, ?_, ?_, ?_, ?_, ?_, ?_⟩
  · rw [inv.count, List.length_cons]
  · intro t mem
    rcases List.mem_cons.mp mem with rfl | mem
    · exact Nat.lt_succ_self _
    · exact Nat.lt_succ_of_lt (inv.born t mem)
  · intro t later
    exact inv.unborn t (Nat.le_of_succ_le later)
  · intro t mem b logged
    rcases List.mem_cons.mp mem with rfl | mem
    · rw [inv.unborn _ le_rfl] at logged
      cases logged
    · exact inv.logged t mem b logged
  · have total := unused_le mine (m.state.nextOp :: m.state.active)
    rw [List.length_cons, ← inv.count] at total
    exact Nat.le_trans (Nat.add_le_add_left total _) room
  · intro busy
    rw [idle] at busy
    cases busy
  · intro busy
    have committing := inv.phase busy
    rw [idle] at committing
    cases committing

theorem Reserving.logWrite (inv : Reserving m mine) (mem : t ∈ m.state.active)
    (budget : b ∈ mine t ∨ (mine t).card < MAXOPBLOCKS) :
    Reserving { state := { m.state with
      io := (logWriteBlock m.state.io m.state.lh b data).1
      lh := (logWriteBlock m.state.io m.state.lh b data).2 } }
      (mine.note (some (.logged t b data))) := by
  have lh : (logWriteBlock m.state.io m.state.lh b data).2 =
      if b ∈ m.state.lh then m.state.lh else m.state.lh ++ [b] := logWriteBlock_lh _ _ _ _
  refine ⟨rfl, ?_, inv.ids, inv.count, inv.born, ?_, ?_, ?_, inv.quiet, inv.phase⟩
  · rw [lh]
    split
    · exact inv.distinct
    · next new =>
      rw [← List.concat_eq_append]
      exact inv.distinct.concat new
  · intro u later
    have differ : u ≠ t := by
      have := inv.born t mem
      change m.state.nextOp ≤ u at later
      omega
    change update mine t (insert b (mine t)) u = ∅
    rw [update_of_ne differ]
    exact inv.unborn u later
  · intro u memU c logged
    change c ∈ update mine t (insert b (mine t)) u at logged
    have old : c = b ∨ c ∈ m.state.lh := by
      by_cases same : u = t
      · rw [same, update_self, Finset.mem_insert] at logged
        exact logged.imp_right (inv.logged t mem c)
      · rw [update_of_ne same] at logged
        exact .inr (inv.logged u memU c logged)
    rw [lh]
    split
    · next there =>
      rcases old with rfl | old
      · exact there
      · exact old
    · rcases old with rfl | old
      · exact List.mem_append_right _ (List.mem_singleton_self c)
      · exact List.mem_append_left _ old
  · change (logWriteBlock m.state.io m.state.lh b data).2.length +
      unused (mine.note (some (.logged t b data))) m.state.active ≤ LOGBLOCKS
    have space := inv.space
    rw [lh]
    split
    · have := unused_note_le m.state.active mine t b data
      omega
    rename_i new
    have newToOp : b ∉ mine t := fun logged => new (inv.logged t mem b logged)
    have := unused_note_lt mem newToOp (budget.resolve_left newToOp) data
    rw [List.length_append, List.length_singleton]
    omega

theorem Reserving.endOp (inv : Reserving m mine) (mem : t ∈ m.state.active)
    (idle : m.state.committing = false) : Reserving { state := Log.endOp m.state t } mine := by
  have length : (m.state.active.erase t).length = m.state.outstanding - 1 := by
    rw [List.length_erase_of_mem mem, inv.count]
  have fewer : unused mine (m.state.active.erase t) ≤ unused mine m.state.active :=
    unused_erase_le mine m.state.active t
  have space := inv.space
  have kept {u : Nat} (memU : u ∈ m.state.active.erase t) : u ∈ m.state.active :=
    List.mem_of_mem_erase memU
  have rest (s : State) (sameLh : s.lh = m.state.lh) (active : s.active = m.state.active.erase t)
      (outstanding : s.outstanding = m.state.outstanding - 1) (nextOp : s.nextOp = m.state.nextOp)
      (quiet : s.committing = true → s.active = [])
        (phase : s.phase ≠ .running → s.committing = true) :
      Reserving { state := s } mine := by
    refine ⟨rfl, ?_, ?_, ?_, ?_, ?_, ?_, ?_, quiet, phase⟩
    · rw [sameLh]
      exact inv.distinct
    · rw [active]
      exact inv.ids.erase t
    · rw [active, outstanding, length]
    · rw [active, nextOp]
      exact fun u memU => inv.born u (kept memU)
    · rw [nextOp]
      exact inv.unborn
    · rw [active, sameLh]
      exact fun u memU => inv.logged u (kept memU)
    · rw [sameLh, active]
      omega
  unfold Log.endOp
  dsimp only
  split
  · next last =>
    refine rest _ rfl rfl rfl rfl (fun _ => ?_) fun _ => rfl
    exact List.eq_nil_of_length_eq_zero (length.trans last)
  · refine rest _ rfl rfl rfl rfl (fun busy => ?_) inv.phase
    rw [idle] at busy
    cases busy

theorem Reserving.other (inv : Reserving m mine) (running : m'.panicked = none)
    (goesOn : GoesOn m.state m'.state) : Reserving m' mine := by
  obtain ⟨⟨active, outstanding, nextOp⟩, log⟩ := goesOn
  have space := inv.space
  rcases log with ⟨lh, committing, phase⟩ | ⟨busy, lh, phase⟩
  · refine ⟨running, ?_, ?_, ?_, ?_, ?_, ?_, ?_, ?_, ?_⟩
    · rw [lh]
      exact inv.distinct
    · rw [active]
      exact inv.ids
    · rw [active, outstanding]
      exact inv.count
    · rw [active, nextOp]
      exact inv.born
    · rw [nextOp]
      exact inv.unborn
    · rw [active, lh]
      exact inv.logged
    · rwa [lh, active]
    · rw [committing, active]
      exact inv.quiet
    · rw [committing]
      exact fun busy => inv.phase fun at_ => busy (phase.mpr at_)
  · -- a commit runs, so that no operation is under way
    have committing := inv.phase busy
    have none := inv.quiet committing
    rw [none] at active
    refine ⟨running, ?_, ?_, ?_, ?_, ?_, ?_, ?_, ?_, ?_⟩
    · rcases lh with lh | lh
      · rw [lh]
        exact inv.distinct
      · rw [lh]
        exact List.nodup_nil
    · rw [active]
      exact List.nodup_nil
    · rw [active, outstanding, inv.count, none]
    · rw [active]
      exact nofun
    · rw [nextOp]
      exact inv.unborn
    · rw [active]
      exact nofun
    · rw [active]
      rcases lh with lh | lh
      · rw [lh]
        exact Nat.le_trans (Nat.le_add_right _ _) space
      · rw [lh]
        exact Nat.zero_le _
    · intro _
      exact active
    · intro away
      rcases phase with at_ | same
      · exact absurd at_ away
      · rw [same]
        exact committing

/-! ## Runs in which the log is never full -/

/-- A block that is in the log already is logged again only if the log is not full. -/
def Absorbs (x : Machine × Mine) : Label → Prop
  | (.logWrite _ b _, _) => b ∈ x.1.state.lh → x.1.state.lh.length < LOGBLOCKS
  | _ => True

instance (x : Machine × Mine) : ∀ l, Decidable (Absorbs x l)
  | (.logWrite _ _ _, _) => inferInstanceAs (Decidable (_ → _))
  | (.beginOp, _) | (.endOp _, _) | (.commit, _) | (.read _, _) | (.evict _, _) | (.crash, _)
  | (.recover, _) => .isTrue trivial

theorem Reserving.room (inv : Reserving m mine) (mem : t ∈ m.state.active)
    (budget : b ∈ mine t ∨ (mine t).card < MAXOPBLOCKS) (new : b ∉ m.state.lh) :
    m.state.lh.length < LOGBLOCKS := by
  have newToOp : b ∉ mine t := fun logged => new (inv.logged t mem b logged)
  have used := unused_note_lt mem newToOp (budget.resolve_left newToOp) fun _ => 0
  have space := inv.space
  omega

/-- **One step keeps the reservations**, if it is within the budget and absorbs only while the
log is not full. -/
theorem Reserving.step (inv : Reserving m mine) (step : OpStep m a effect m')
    (budget : WithinBudget (m, mine) (a, effect)) (absorbs : Absorbs (m, mine) (a, effect)) :
    Reserving m' (mine.note effect) := by
  cases step with
  | beginOp idle room made =>
    rw [made]
    exact inv.beginOp idle room
  | logWrite mem enough made =>
    rw [made]
    exact inv.logWrite mem budget
  | @logWritePanic t b data e mem panics =>
    -- the log is not full, and counts the operation itself
    have space : m.state.lh.length < LOGBLOCKS := by
      by_cases logged : b ∈ m.state.lh
      · exact absorbs logged
      · exact inv.room mem budget logged
    have counted : 0 < m.state.outstanding := by
      rw [inv.count]
      exact List.length_pos_of_mem mem
    unfold State.logWritePanic at panics
    rw [if_neg (by omega), if_neg (by omega)] at panics
    cases panics
  | endOp mem idle => exact inv.endOp mem idle
  | endOpPanic mem busy =>
    rw [inv.quiet busy] at mem
    cases mem
  | other running quiet goesOn =>
    have same : mine.note effect = mine := by
      unfold Mine.note
      split
      · next t b data => exact absurd rfl (quiet t b data)
      · rfl
    rw [same]
    exact inv.other running goesOn

theorem Reserving.reserved (inv : Reserving m mine) : Reserved start m where
  room := Nat.le_trans (Nat.le_add_right _ _) inv.space
  distinct := inv.distinct
  noPanic := by
    rw [inv.running]
    exact nofun
  outstanding := ⟨inv.ids, inv.count⟩
  quiet busy := by
    have none := inv.quiet busy
    refine ⟨by rw [inv.count, none]; rfl, fun t b data => ?_⟩
    unfold execOp
    rw [if_pos inv.running, none]
    exact if_neg (List.not_mem_nil)

/-- **The reserved log space is sufficient**, in every run in which no block is logged again while
the log is full. -/
theorem reserved_of_absorbs (start : Nat) {x : Machine × Mine}
    (reach : (opSystem start).ReachableWhen (fun x l => WithinBudget x l ∧ Absorbs x l) x) :
    Reserved start x.1 := by
  have inv : Reserving x.1 x.2 := by
    refine reach.invariant (P := fun x => Reserving x.1 x.2) ?_ ?_
    · intro x idle
      rw [idle.2]
      exact .of_quiescent idle.1
    · intro x ⟨a, effect⟩ x' inv ⟨budget, absorbs⟩ step
      obtain ⟨⟨m', e⟩, stepped, ⟨⟩⟩ := Option.map_eq_some_iff.mp step
      exact inv.step (OpStep.of_execOp stepped).2 budget absorbs
  exact inv.reserved

/-- Three operations fill the log to the last block, end, and commit. -/
theorem reserved_full : ∃ x, (opSystem 2).ReachableWhen
      (fun x l => WithinBudget x l ∧ Absorbs x l) x ∧
    x.1.state.lh.length = LOGBLOCKS ∧ x.1.state.committing = true ∧ Reserved 2 x.1 := by
  obtain ⟨y, reach, full, committing⟩ : ∃ y, (opSystem 2).ReachableWhen
      (fun x l => WithinBudget x l ∧ Absorbs x l) y ∧ y.1.state.lh.length = LOGBLOCKS ∧
      y.1.state.committing = true :=
    Lts.exists_of_run (s := (fresh, fun _ => ∅)) ⟨fresh_quiescent, rfl⟩
      ([.beginOp, .beginOp, .beginOp] ++ fillOp 0 ++ fillOp 1 ++ fillOp 2 ++
        [.endOp 0, .endOp 2, .endOp 1]) (by decide +kernel)
  exact ⟨y, reach, full, committing, reserved_of_absorbs 2 reach⟩

end Xv6.Log
