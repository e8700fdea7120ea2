import Xv6.Bio.Coherent
import Xv6.Lib.Outcome
import Mathlib.Data.Fintype.Card

/-!
# A commit and its buffers

`commit` of `kernel/log.c` on the buffer cache. The log admits operations that together log up to
`LOGBLOCKS` blocks and pins the buffer of each; the cache has `NBUF` buffers, no more than that.
With all of them pinned, `write_log` finds none for its first log block.

Processes use buffers as before. `begin_op` and `end_op` count the operations, and the `end_op` of
the last one commits, in one step: the commit runs with no other process in the cache.
-/

namespace Xv6.Bio

open Xv6.Log (Block MAXOPBLOCKS LOGBLOCKS putHead)
open Outcome

/-- How a process comes to a stop. -/
inductive Stop
  /-- panic "bget: no buffers" -/
  | noBuffers
  /-- It waits for a lock that is not released. -/
  | asleep
  deriving DecidableEq

/-! ## The commit -/

/-- The step `a` of the process that commits. -/
def act (dev : Nat) (s : State) (a : Action) : Except Stop State :=
  match exec dev s a with
  | some (s, _) => .ok s
  | none => .error .asleep

/-- `bread` in full; the session that it starts is `s.nextId`. -/
def bread (dev : Nat) (s : State) (b : Nat) : Except Stop State :=
  match s.cache.bget dev b with
  | none => .error .noBuffers
  | some _ => do
      let t := s.nextId
      let s ← act dev s (.bget b)
      let s ← act dev s (.acquiresleep t)
      act dev s (.bread t)

def brelse (dev : Nat) (s : State) (t : Nat) : Except Stop State := do
  let s ← act dev s (.releasesleep t)
  act dev s (.brelse t)

def State.data (s : State) (t : Nat) : Block :=
  match s.session t fun _ => true with
  | some u => (s.cache.buf u.buf).data
  | none => fun _ => 0

/-- `write_log` for one `tail`, with `b = log.lh.block[tail]`. -/
def writeLogBlock (dev start tail b : Nat) (s : State) : Except Stop State := do
  let dst := s.nextId
  let s ← bread dev s (start + tail + 1)
  let src := s.nextId
  let s ← bread dev s b
  let s ← act dev s (.modify dst (s.data src))
  let s ← act dev s (.bwrite dst)
  let s ← brelse dev s src
  brelse dev s dst

def writeLog (dev start : Nat) : Nat → List Nat → State → Except Stop State
  | _, [], s => .ok s
  | tail, b :: rest, s => do
      let s ← writeLogBlock dev start tail b s
      writeLog dev start (tail + 1) rest s

def writeHead (dev start : Nat) (lh : List Nat) (s : State) : Except Stop State := do
  let t := s.nextId
  let s ← bread dev s start
  let s ← act dev s (.modify t (putHead lh (s.data t)))
  let s ← act dev s (.bwrite t)
  brelse dev s t

/-- `install_trans` for one `tail`, with `b = log.lh.block[tail]`. -/
def installBlock (dev start tail b : Nat) (s : State) : Except Stop State := do
  let src := s.nextId
  let s ← bread dev s (start + tail + 1)
  let dst := s.nextId
  let s ← bread dev s b
  let s ← act dev s (.modify dst (s.data src))
  let s ← act dev s (.bwrite dst)
  let s ← act dev s (.installed dst)
  let s ← brelse dev s src
  brelse dev s dst

def installTrans (dev start : Nat) : Nat → List Nat → State → Except Stop State
  | _, [], s => .ok s
  | tail, b :: rest, s => do
      let s ← installBlock dev start tail b s
      installTrans dev start (tail + 1) rest s

def commit (dev start : Nat) (s : State) : Except Stop State :=
  if s.lh = [] then .ok s
  else do
    let lh := s.lh
    let s ← writeLog dev start 0 lh s
    let s ← writeHead dev start lh s
    let s ← installTrans dev start 0 lh s
    writeHead dev start [] s

/-! ## Operations -/

/-- The cache and `struct log`, and which operation has logged which blocks. -/
structure Machine where
  bio : State
  outstanding : Nat := 0
  active : List Nat := []
  nextOp : Nat := 0
  mine : Nat → Finset Nat := fun _ => ∅
  panicked : Bool := false

inductive Op
  | beginOp
  /-- a step of `bread`, `bwrite` or `brelse`, by any process -/
  | io (a : Action)
  /-- operation `op` logs the block whose buffer it holds in session `t` -/
  | logWrite (op t : Nat)
  | endOp (op : Nat)

/-- The steps that are no part of the log. -/
def Action.plain : Action → Bool
  | .bget _ | .acquiresleep _ | .bread _ | .modify _ _ | .bwrite _ | .releasesleep _
  | .brelse _ => true
  | .logWrite _ | .bpin _ | .bunpin _ | .installed _ => false

/-- `end_op` after the count has been taken down. -/
def endOp (dev start : Nat) (m : Machine) : Option Machine :=
  if m.outstanding = 0 then
    match commit dev start m.bio with
    | .ok s => some { m with bio := s }
    | .error .noBuffers => some { m with panicked := true }
    | .error .asleep => none
  else some m

def execOp (dev start : Nat) (m : Machine) (a : Op) : Option (Machine × Option Nat) :=
  if m.panicked then none
  else match a with
  | .beginOp =>
    if m.bio.lh.length + (m.outstanding + 1) * MAXOPBLOCKS ≤ LOGBLOCKS then
      some ({ m with
        outstanding := m.outstanding + 1
        active := m.nextOp :: m.active
        nextOp := m.nextOp + 1 }, none)
    else none
  | .io a =>
    if a.plain then (exec dev m.bio a).map fun (s, _) => ({ m with bio := s }, none) else none
  | .logWrite op t =>
    if op ∈ m.active then
      match exec dev m.bio (.logWrite t) with
      | some (s, some (.stored b _)) =>
        some ({ m with bio := s, mine := Function.update m.mine op (insert b (m.mine op)) },
          some b)
      | _ => none
    else none
  | .endOp op =>
    if op ∈ m.active then
      (endOp dev start { m with
        outstanding := m.outstanding - 1, active := m.active.erase op }).map (·, none)
    else none

/-- The log and the cache after a start, over any disk. -/
def opSystem (dev start : Nat) : Lts Machine (Op × Option Nat) :=
  Lts.ofExec (fun m => ∃ disk, m = { bio := { cache := binit disk } }) (execOp dev start)

/-- An operation logs at most `MAXOPBLOCKS` distinct blocks, and nobody holds a buffer when the
last operation ends. -/
def Considerate (m : Machine) : Op × Option Nat → Prop
  | (.logWrite op _, some b) => b ∈ m.mine op ∨ (m.mine op).card < MAXOPBLOCKS
  | (.endOp _, _) => m.outstanding = 1 → m.bio.sessions = []
  | _ => True

instance (m : Machine) : ∀ l, Decidable (Considerate m l)
  | (.logWrite op _, some b) =>
    inferInstanceAs (Decidable (b ∈ m.mine op ∨ (m.mine op).card < MAXOPBLOCKS))
  | (.endOp _, _) =>
    inferInstanceAs (Decidable (m.outstanding = 1 → m.bio.sessions = []))
  | (.logWrite _ _, none) | (.beginOp, _) | (.io _, _) => .isTrue trivial

/-! ## All buffers pinned -/

/-- Session `t` of operation `op` reads block `b`, changes it and logs it. -/
def logBlock (op t b : Nat) : List Op :=
  [.io (.bget b), .io (.acquiresleep t), .io (.bread t), .io (.modify t fun _ => 1),
    .logWrite op t, .io (.releasesleep t), .io (.brelse t)]

/-- Three operations log ten blocks each. -/
def pinAll : List Op :=
  [.beginOp, .beginOp, .beginOp] ++
    (List.range LOGBLOCKS).flatMap (fun k => logBlock (k / MAXOPBLOCKS) k (100 + k)) ++
    [.endOp 0, .endOp 1, .endOp 2]

theorem commit_no_buffers :
    ¬ ∀ dev start m, dev ≠ 0 → (opSystem dev start).ReachableWhen Considerate m →
      m.panicked = false := by
  intro always
  obtain ⟨m, reach, panicked⟩ : ∃ m, (opSystem 1 2).ReachableWhen Considerate m ∧
      m.panicked ≠ false :=
    Lts.exists_of_run (s := { bio := { cache := binit fun _ _ => 0 } }) ⟨_, rfl⟩ pinAll
      (by decide +kernel)
  exact panicked (always 1 2 m (by decide) reach)

/-! ## A buffer left over -/

variable {dev start tail b t : Nat} {s s' : State} {a : Action} {effect : Option Effect}
  {array : Nat → Block} {L : List Nat} {opens : List (Nat × Nat)} {i : Fin NBUF}

/-- What a commit relies on between its steps: the blocks `L` are pinned for the log, there are no
other pins, and `opens` are the sessions with their blocks. -/
structure Commits (dev : Nat) (L : List Nat) (opens : List (Nat × Nat)) (s : State) : Prop where
  coherent : ∃ array, Coherent dev s array
  pins : ∀ i, s.pins i = 0
  lh : s.lh = L
  opens : (s.sessions.map fun u => (u.id, (s.cache.buf u.buf).blockno)).Perm opens

/-- A commit does not stop for want of a buffer. -/
def Supplied (e : Stop) : Prop := e ≠ .noBuffers

theorem act_ends (holds : ∀ s' effect, Step dev s a effect s' → Q s') :
    Ends Supplied Q (act dev s a) := by
  unfold act
  split
  · next s' effect step => exact .ok (holds s' effect (.of_exec step))
  · exact .error nofun

/-- The steps that neither start nor end a session, and leave the log alone. -/
def Action.inPlace : Action → Bool
  | .acquiresleep _ | .bread _ | .modify _ _ | .bwrite _ | .releasesleep _ => true
  | .bget _ | .logWrite _ | .brelse _ | .bpin _ | .bunpin _ | .installed _ => false

theorem Step.of_inPlace (step : Step dev s a effect s') (inPlace : a.inPlace = true) :
    ∃ c t stage, s' = s.move c t stage ∧ SameKeys s.cache c := by
  cases step with
  | acquiresleep => exact ⟨_, _, _, rfl, SameData.acquiresleep.toSameKeys⟩
  | bread => exact ⟨_, _, _, rfl, .read⟩
  | modify => exact ⟨_, _, _, rfl, .fill⟩
  | bwrite => exact ⟨_, _, _, rfl, fun _ => rfl, fun _ => rfl⟩
  | releasesleep => exact ⟨_, _, _, rfl, SameData.releasesleep.toSameKeys⟩
  | _ => cases inPlace

theorem Commits.inPlace (commits : Commits dev L opens s) (inPlace : a.inPlace = true) :
    Ends Supplied (Commits dev L opens) (act dev s a) := by
  refine act_ends fun s' effect step => ?_
  obtain ⟨array, inv⟩ := commits.coherent
  have after := inv.step step
  obtain ⟨c, t, stage, rfl, keys⟩ := step.of_inPlace inPlace
  refine ⟨⟨_, after⟩, commits.pins, commits.lh, ?_⟩
  have same : (s.move c t stage).sessions.map (fun u => (u.id, (c.buf u.buf).blockno)) =
      s.sessions.map fun u => (u.id, (s.cache.buf u.buf).blockno) := by
    unfold State.move
    rw [List.map_map]
    apply List.map_congr_left
    intro u _
    dsimp only [Function.comp_apply]
    split <;> rw [keys.blockno]
  rw [State.move_cache, same]
  exact commits.opens

theorem Commits.bget (commits : Commits dev L opens s) :
    Ends Supplied (Commits dev L ((s.nextId, b) :: opens)) (act dev s (.bget b)) := by
  refine act_ends fun s' effect step => ?_
  obtain ⟨array, inv⟩ := commits.coherent
  have after := inv.step step
  have kept := fun i => step.kept (i := i)
  cases step with
  | @bget _ c i found =>
    refine ⟨⟨_, after⟩, commits.pins, commits.lh, ?_⟩
    have old : s.sessions.map (fun u => (u.id, (c.buf u.buf).blockno)) =
        s.sessions.map fun u => (u.id, (s.cache.buf u.buf).blockno) := by
      apply List.map_congr_left
      intro u mem
      rw [← (kept u.buf (inv.counted.used mem)).2]
      rfl
    change ((s.nextId, (c.buf i).blockno) ::
      s.sessions.map fun u => (u.id, (c.buf u.buf).blockno)).Perm _
    rw [Cache.bget_blockno found, old]
    exact commits.opens.cons _

theorem Commits.leave (commits : Commits dev L ((t, b) :: opens) s) :
    Ends Supplied (Commits dev L opens) (act dev s (.brelse t)) := by
  refine act_ends fun s' effect step => ?_
  obtain ⟨array, inv⟩ := commits.coherent
  have after := inv.step step
  cases step with
  | @brelse _ u at_ =>
    obtain ⟨mem, rfl, -⟩ := State.session_spec at_
    refine ⟨⟨_, after⟩, commits.pins, commits.lh, ?_⟩
    have listed : (u.id, b) ∈ s.sessions.map fun u => (u.id, (s.cache.buf u.buf).blockno) :=
      commits.opens.mem_iff.mpr (List.mem_cons_self ..)
    obtain ⟨v, memV, same⟩ := List.mem_map.mp listed
    obtain ⟨id, rfl⟩ := Prod.mk.inj same
    obtain rfl := inv.locks.inj memV mem id
    have perm := (inv.locks.leave_perm (c := s.cache.brelse v.buf) mem).map
      fun u => (u.id, (s.cache.buf u.buf).blockno)
    have rest := (perm.symm.trans commits.opens).cons_inv
    rw [State.leave_cache]
    simp only [SameKeys.brelse.blockno]
    exact rest

theorem Commits.installed (commits : Commits dev L opens s) (mem : (t, b) ∈ opens) :
    Ends Supplied (Commits dev (L.erase b) opens) (act dev s (.installed t)) := by
  refine act_ends fun s' effect step => ?_
  obtain ⟨array, inv⟩ := commits.coherent
  have after := inv.step step
  cases step with
  | @installed _ u at_ logged =>
    obtain ⟨memU, rfl, -⟩ := State.session_spec at_
    obtain ⟨v, memV, same⟩ := List.mem_map.mp (commits.opens.mem_iff.mpr mem)
    obtain ⟨id, rfl⟩ := Prod.mk.inj same
    obtain rfl := inv.locks.inj memV memU id
    refine ⟨⟨_, after⟩, commits.pins, ?_, ?_⟩
    · rw [← commits.lh]
    · simp only [SameKeys.bunpin.blockno]
      exact commits.opens

/-- **With fewer blocks in the log than buffers, a buffer is unused** once no session is left:
distinct buffers are pinned for distinct blocks. -/
theorem Commits.unused (commits : Commits dev L [] s) (room : L.length < NBUF) :
    ∃ i, (s.cache.buf i).refcnt = 0 := by
  obtain ⟨array, inv⟩ := commits.coherent
  have idle : s.sessions = [] := List.map_eq_nil_iff.mp (List.perm_nil.mp commits.opens)
  by_contra full
  rw [not_exists] at full
  have pinned : ∀ i, (s.cache.buf i).dev = dev ∧ (s.cache.buf i).blockno ∈ L := by
    intro i
    by_contra unlogged
    have total := inv.counted.refs i
    rw [State.logPin, commits.lh, if_neg unlogged, commits.pins, State.held, idle] at total
    exact full i total
  have nodup : ((List.finRange NBUF).map fun i => (s.cache.buf i).blockno).Nodup := by
    refine (List.nodup_finRange NBUF).map fun i j same => ?_
    exact inv.keyed.unique i j (pinned i).1 (pinned j).1 same
  have subset : ((List.finRange NBUF).map fun i => (s.cache.buf i).blockno) ⊆ L := by
    intro b mem
    obtain ⟨i, -, rfl⟩ := List.mem_map.mp mem
    exact (pinned i).2
  have length := (List.subperm_of_subset nodup subset).length_le
  exact Nat.not_lt.mpr length room

theorem Keyed.bget_some (keyed : Keyed dev c)
    (room : c.cached dev b ≠ none ∨ ∃ i, (c.buf i).refcnt = 0) : c.bget dev b ≠ none := by
  unfold Cache.bget
  split
  · exact nofun
  rename_i missing
  obtain ⟨i, zero⟩ := room.resolve_left fun found => found missing
  split
  · exact nofun
  · next none =>
    have used := List.find?_eq_none.mp none i (keyed.mem_prev i)
    exact absurd zero (by simpa using used)

theorem Commits.bread (commits : Commits dev L opens s)
    (room : b ∈ L ∨ opens = [] ∧ L.length < NBUF) :
    Ends Supplied (Commits dev L ((s.nextId, b) :: opens)) (Bio.bread dev s b) := by
  have found : s.cache.bget dev b ≠ none := by
    obtain ⟨array, inv⟩ := commits.coherent
    apply inv.keyed.bget_some
    rcases room with mem | ⟨rfl, room⟩
    · exact .inl fun missing => inv.not_logged missing (commits.lh ▸ mem)
    · exact .inr (commits.unused room)
  unfold Bio.bread
  split
  · next none => exact absurd none found
  · exact commits.bget.bind fun s1 commits =>
      (commits.inPlace rfl).bind fun s2 commits => commits.inPlace rfl

theorem Commits.brelse (commits : Commits dev L ((t, b) :: opens) s) :
    Ends Supplied (Commits dev L opens) (Bio.brelse dev s t) :=
  (commits.inPlace rfl).bind fun _ commits => commits.leave

theorem Commits.swap (commits : Commits dev L (x :: y :: opens) s) :
    Commits dev L (y :: x :: opens) s :=
  { commits with opens := commits.opens.trans (List.Perm.swap ..) }

/-! ## The loops of the commit -/

theorem Commits.writeLogBlock (commits : Commits dev L [] s) (room : L.length < NBUF)
    (mem : b ∈ L) : Ends Supplied (Commits dev L []) (writeLogBlock dev start tail b s) := by
  refine (commits.bread (.inr ⟨rfl, room⟩)).bind fun s1 commits => ?_
  refine (commits.bread (.inl mem)).bind fun s2 commits => ?_
  refine (commits.inPlace rfl).bind fun s3 commits => ?_
  refine (commits.inPlace rfl).bind fun s4 commits => ?_
  exact commits.brelse.bind fun s5 commits => commits.brelse

theorem Commits.writeLog (room : L.length < NBUF) {lh : List Nat} :
    ∀ {s tail}, Commits dev L [] s → lh ⊆ L →
      Ends Supplied (Commits dev L []) (writeLog dev start tail lh s) := by
  induction lh with
  | nil =>
    intro s tail commits _
    exact .ok commits
  | cons b rest ih =>
    intro s tail commits subset
    obtain ⟨mem, subset⟩ := List.cons_subset.mp subset
    exact (commits.writeLogBlock room mem).bind fun s' commits => ih commits subset

theorem Commits.writeHead (commits : Commits dev L [] s) (room : L.length < NBUF) {lh : List Nat} :
    Ends Supplied (Commits dev L []) (writeHead dev start lh s) := by
  refine (commits.bread (.inr ⟨rfl, room⟩)).bind fun s1 commits => ?_
  refine (commits.inPlace rfl).bind fun s2 commits => ?_
  exact (commits.inPlace rfl).bind fun s3 commits => commits.brelse

theorem Commits.installBlock (commits : Commits dev (b :: L) [] s) (room : (b :: L).length < NBUF) :
    Ends Supplied (Commits dev L []) (installBlock dev start tail b s) := by
  refine (commits.bread (.inr ⟨rfl, room⟩)).bind fun s1 commits => ?_
  refine (commits.bread (.inl (List.mem_cons_self ..))).bind fun s2 commits => ?_
  refine (commits.inPlace rfl).bind fun s3 commits => ?_
  refine (commits.inPlace rfl).bind fun s4 commits => ?_
  refine (commits.installed (List.mem_cons_self ..)).bind fun s5 commits => ?_
  rw [List.erase_cons_head] at commits
  exact commits.swap.brelse.bind fun s6 commits => commits.brelse

/-- The pins go one by one, so that there is room throughout. -/
theorem Commits.installTrans {lh : List Nat} (room : lh.length < NBUF) :
    ∀ {s tail}, Commits dev lh [] s →
      Ends Supplied (Commits dev [] []) (installTrans dev start tail lh s) := by
  induction lh with
  | nil =>
    intro s tail commits
    exact .ok commits
  | cons b rest ih =>
    intro s tail commits
    exact (commits.installBlock room).bind fun s' commits =>
      ih (Nat.lt_of_succ_lt room) commits

theorem Commits.commit (start : Nat) (commits : Commits dev L [] s) (room : L.length < NBUF) :
    Ends Supplied (Commits dev [] []) (commit dev start s) := by
  unfold Bio.commit
  rw [commits.lh]
  split
  · next empty =>
    rw [empty] at commits
    exact .ok commits
  · refine (commits.writeLog room (List.Subset.refl L)).bind fun s1 commits => ?_
    refine (commits.writeHead room).bind fun s2 commits => ?_
    refine (commits.installTrans room).bind fun s3 commits => ?_
    exact commits.writeHead (by decide)

/-- The log is not full when the last operation ends. -/
def LeavesBuffer (m : Machine) : Op × Option Nat → Prop
  | (.endOp _, _) => m.outstanding = 1 → m.bio.lh.length < NBUF
  | _ => True

instance (m : Machine) : ∀ l, Decidable (LeavesBuffer m l)
  | (.endOp _, _) =>
    inferInstanceAs (Decidable (m.outstanding = 1 → m.bio.lh.length < NBUF))
  | (.logWrite _ _, _) | (.beginOp, _) | (.io _, _) => .isTrue trivial

/-- The cache is coherent and the log alone pins buffers. -/
structure Ready (dev : Nat) (m : Machine) : Prop where
  coherent : ∃ array, Coherent dev m.bio array
  pins : ∀ i, m.bio.pins i = 0
  outstanding : m.outstanding = m.active.length
  running : m.panicked = false

theorem Step.pins (step : Step dev s a effect s') (plain : a.plain = true ∨ ∃ t, a = .logWrite t) :
    s'.pins = s.pins := by
  cases step with
  | bpin | bunpin =>
    rcases plain with plain | ⟨t, same⟩
    · cases plain
    · cases same
  | _ => rfl

variable {m m' : Machine} {o : Op} {shown : Option Nat}

theorem Ready.io (ready : Ready dev m) (step : exec dev m.bio a = some (s', effect))
    (plain : a.plain = true ∨ ∃ t, a = .logWrite t) (mine : Nat → Finset Nat) :
    Ready dev { m with bio := s', mine := mine } := by
  obtain ⟨array, inv⟩ := ready.coherent
  have step := Step.of_exec step
  refine ⟨⟨_, inv.step step⟩, fun i => ?_, ready.outstanding, ready.running⟩
  rw [step.pins plain]
  exact ready.pins i

theorem Ready.endOp (ready : Ready dev m)
    (quiet : m.outstanding = 0 → m.bio.sessions = [] ∧ m.bio.lh.length < NBUF)
    (step : endOp dev start m = some m') : Ready dev m' := by
  unfold Bio.endOp at step
  split at step
  · next last =>
    obtain ⟨idle, room⟩ := quiet last
    have commits : Commits dev m.bio.lh [] m.bio :=
      ⟨ready.coherent, ready.pins, rfl, by rw [idle]; rfl⟩
    have ends := commits.commit start room
    split at step
    · next s committed =>
      cases step
      rw [committed] at ends
      exact ⟨ends.value.coherent, ends.value.pins, ready.outstanding, ready.running⟩
    · next stopped =>
      rw [stopped] at ends
      exact absurd rfl ends.failure
    · cases step
  · cases step
    exact ready

theorem Ready.step (ready : Ready dev m) (considerate : Considerate m (o, shown))
    (leaves : LeavesBuffer m (o, shown)) (step : execOp dev start m o = some (m', shown)) :
    Ready dev m' := by
  unfold execOp at step
  split at step
  · cases step
  split at step <;> obtain ⟨may, made⟩ := Option.ite_none_right_eq_some.mp step
  · cases made
    refine ⟨ready.coherent, ready.pins, ?_, ready.running⟩
    rw [List.length_cons, ready.outstanding]
  · obtain ⟨_, stepped, ⟨⟩⟩ := Option.map_eq_some_iff.mp made
    exact ready.io stepped (.inl may) m.mine
  · split at made <;> cases made
    exact ready.io ‹_› (.inr ⟨_, rfl⟩) _
  · obtain ⟨m1, ended, ⟨⟩⟩ := Option.map_eq_some_iff.mp made
    have ready' : Ready dev { m with
        outstanding := m.outstanding - 1, active := m.active.erase _ } :=
      ⟨ready.coherent, ready.pins, by
        rw [List.length_erase_of_mem may, ready.outstanding], ready.running⟩
    refine ready'.endOp (fun last => ?_) ended
    have one : m.outstanding = 1 := by
      have := List.length_pos_of_mem may
      have := ready.outstanding
      dsimp only at last
      omega
    exact ⟨considerate one, leaves one⟩

theorem commit_finds_buffers (dev start : Nat) (nonzero : dev ≠ 0) (m : Machine)
    (reach : (opSystem dev start).ReachableWhen
      (fun m l => Considerate m l ∧ LeavesBuffer m l) m) : m.panicked = false := by
  have ready : Ready dev m := by
    apply reach.invariant (P := Ready dev)
    · rintro m ⟨disk, rfl⟩
      exact ⟨⟨disk, .start nonzero disk⟩, fun _ => rfl, rfl, rfl⟩
    · rintro m ⟨o, shown⟩ m' ready ⟨considerate, leaves⟩ step
      exact ready.step considerate leaves step
  exact ready.running

/-- One operation logs a block and ends. -/
def commitOne : List Op := [.beginOp] ++ logBlock 0 0 100 ++ [.endOp 0]

theorem commit_finds_buffers_one : ∃ m, (opSystem 1 2).ReachableWhen
    (fun m l => Considerate m l ∧ LeavesBuffer m l) m ∧ 0 < m.bio.nextId ∧ m.active = [] ∧
      m.panicked = false := by
  obtain ⟨m, reach, ids, idle⟩ : ∃ m, (opSystem 1 2).ReachableWhen
      (fun m l => Considerate m l ∧ LeavesBuffer m l) m ∧ 0 < m.bio.nextId ∧ m.active = [] :=
    Lts.exists_of_run (s := { bio := { cache := binit fun _ _ => 0 } }) ⟨_, rfl⟩ commitOne
      (by decide +kernel)
  exact ⟨m, reach, ids, idle, commit_finds_buffers 1 2 (by decide) m reach⟩

end Xv6.Bio
