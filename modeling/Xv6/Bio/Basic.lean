import Xv6.Lib.Ring
import Xv6.Log.Basic
import Mathlib.Data.List.FinRange

/-!
# The buffer cache

`kernel/bio.c`: `NBUF` buffers on a circular list, most recently used first, and the processes
that use them, as a transition system. Each section under `bcache.lock` is one step, and so is
each transfer between a buffer and the disk, which is made under the buffer's own sleep-lock.

A process uses a buffer in a session, from its `bread` to its `brelse`. It may change the data
and must hand it to `bwrite` or `log_write` before it lets go of the buffer. Any number of
sessions run at once, on the same buffers or not, and one process may have several.

`log_write` pins the block's buffer if the block is not in the log, and `install_trans` takes the
pin back when it has written the block home; other pins may come and go. Every caller passes the
one device `dev` that there is a disk for. The reference counts stay far below `2 ^ 32`.
-/

namespace Xv6.Bio

open Xv6.Log (Block MAXOPBLOCKS LOGBLOCKS)
open Function (update)

def NBUF : Nat := MAXOPBLOCKS * 3

structure Buf where
  /-- Has the data been read from the disk? -/
  valid : Bool := false
  dev : Nat := 0
  blockno : Nat := 0
  /-- The session that holds the sleep-lock. -/
  lock : Option Nat := none
  refcnt : Nat := 0
  data : Block := fun _ => 0

/-- The buffers, their list, and the disk below. -/
structure Cache where
  buf : Fin NBUF → Buf
  links : Links (Fin NBUF)
  disk : Nat → Block

def binit (disk : Nat → Block) : Cache where
  buf _ := {}
  links := (List.finRange NBUF).foldl Links.pushFront Links.empty
  disk := disk

namespace Cache

variable (c : Cache)

def assign (i : Fin NBUF) (f : Buf → Buf) : Cache :=
  { c with buf := update c.buf i (f (c.buf i)) }


@[simp] theorem assign_self (i : Fin NBUF) (f : Buf → Buf) : (c.assign i f).buf i = f (c.buf i) :=
  Function.update_self ..

theorem assign_other (other : j ≠ i) (f : Buf → Buf) : (c.assign i f).buf j = c.buf j :=
  Function.update_of_ne other ..

theorem assign_same {β : Type} (g : Buf → β) (same : g (f (c.buf i)) = g (c.buf i)) (j : Fin NBUF) :
    g ((c.assign i f).buf j) = g (c.buf j) := by
  by_cases at_ : j = i
  · rw [at_, assign_self]
    exact same
  · rw [assign_other c at_]

/-- The first loop of `bget`, from `head.next`. -/
def cached (dev b : Nat) : Option (Fin NBUF) :=
  (Links.walk c.links.next NBUF none).find? fun i =>
    (c.buf i).dev = dev ∧ (c.buf i).blockno = b

/-- The second loop of `bget`, from `head.prev`: the least recently used buffer that is unused. -/
def unused : Option (Fin NBUF) :=
  (Links.walk c.links.prev NBUF none).find? fun i => (c.buf i).refcnt = 0

/-- `bget` up to `acquiresleep`; `none` is panic "bget: no buffers". -/
def bget (dev b : Nat) : Option (Cache × Fin NBUF) :=
  match c.cached dev b with
  | some i => some (c.assign i fun buf => { buf with refcnt := buf.refcnt + 1 }, i)
  | none =>
    match c.unused with
    | some i =>
      some (c.assign i fun buf =>
        { buf with dev := dev, blockno := b, valid := false, refcnt := 1 }, i)
    | none => none

def acquiresleep (i : Fin NBUF) (t : Nat) : Cache :=
  c.assign i fun buf => { buf with lock := some t }

def releasesleep (i : Fin NBUF) : Cache :=
  c.assign i fun buf => { buf with lock := none }

/-- What `bread` does with the locked buffer. -/
def read (i : Fin NBUF) : Cache :=
  if (c.buf i).valid then c
  else c.assign i fun buf => { buf with data := c.disk buf.blockno, valid := true }

def fill (i : Fin NBUF) (data : Block) : Cache :=
  c.assign i fun buf => { buf with data := data }

def bwrite (i : Fin NBUF) : Cache :=
  { c with disk := update c.disk (c.buf i).blockno (c.buf i).data }

/-- `brelse` after its `releasesleep`. -/
def brelse (i : Fin NBUF) : Cache :=
  let c := c.assign i fun buf => { buf with refcnt := buf.refcnt - 1 }
  if (c.buf i).refcnt = 0 then { c with links := (c.links.unlink i).pushFront i } else c

def bpin (i : Fin NBUF) : Cache :=
  c.assign i fun buf => { buf with refcnt := buf.refcnt + 1 }

def bunpin (i : Fin NBUF) : Cache :=
  c.assign i fun buf => { buf with refcnt := buf.refcnt - 1 }

end Cache

/-! ## Sessions -/

/-- What the holder of a buffer has done with its data. -/
inductive Copy
  /-- as `bread` returned it, or as given to `log_write` -/
  | same
  /-- changed and not handed on yet -/
  | modified
  /-- written to the disk -/
  | written
  deriving DecidableEq

inductive Stage
  /-- in `acquiresleep` -/
  | waiting
  /-- in `bread`, with the lock -/
  | locked
  /-- between `bread` and `brelse` -/
  | holding (copy : Copy)
  /-- in `brelse`, after `releasesleep` -/
  | unlocked
  deriving DecidableEq

/-- Does a session at this stage hold the sleep-lock of its buffer? -/
def Stage.holdingsleep : Stage → Bool
  | .locked | .holding _ => true
  | .waiting | .unlocked => false

/-- Has `bread` returned the buffer? -/
def Stage.isHolding : Stage → Bool
  | .holding _ => true
  | .waiting | .locked | .unlocked => false

/-- May the holder let go of the buffer? -/
def Stage.handedOn : Stage → Bool
  | .holding .same | .holding .written => true
  | .holding .modified | .waiting | .locked | .unlocked => false

structure Session where
  id : Nat
  buf : Fin NBUF
  stage : Stage := .waiting

structure State where
  cache : Cache
  sessions : List Session := []
  nextId : Nat := 0
  /-- `log.lh.block`, the blocks that the log has pinned -/
  lh : List Nat := []
  /-- the pins of others -/
  pins : Fin NBUF → Nat := fun _ => 0

namespace State

variable (s : State)

/-- Session `t`, if it is at a stage that `p` admits. -/
def session (t : Nat) (p : Stage → Bool) : Option Session :=
  s.sessions.find? fun u => u.id = t ∧ p u.stage = true

def enter (c : Cache) (i : Fin NBUF) : State :=
  { s with
    cache := c
    sessions := { id := s.nextId, buf := i } :: s.sessions
    nextId := s.nextId + 1 }

def move (c : Cache) (t : Nat) (stage : Stage) : State :=
  { s with
    cache := c
    sessions := s.sessions.map fun u => if u.id = t then { u with stage := stage } else u }

def leave (c : Cache) (t : Nat) : State :=
  { s with cache := c, sessions := s.sessions.filter (·.id ≠ t) }

/-- The buffers in use, once for each session. -/
def held : List (Fin NBUF) := s.sessions.map (·.buf)

section Projections

variable (c : Cache) (i : Fin NBUF) (t : Nat) (stage : Stage)

@[simp] theorem enter_cache : (s.enter c i).cache = c := rfl
@[simp] theorem enter_lh : (s.enter c i).lh = s.lh := rfl
@[simp] theorem enter_pins : (s.enter c i).pins = s.pins := rfl
@[simp] theorem enter_held : (s.enter c i).held = i :: s.held := rfl
@[simp] theorem move_cache : (s.move c t stage).cache = c := rfl
@[simp] theorem move_pins : (s.move c t stage).pins = s.pins := rfl
@[simp] theorem leave_cache : (s.leave c t).cache = c := rfl
@[simp] theorem leave_pins : (s.leave c t).pins = s.pins := rfl

@[simp] theorem move_held : (s.move c t stage).held = s.held := by
  unfold held move
  rw [List.map_map]
  apply List.map_congr_left
  intro u _
  dsimp only [Function.comp_apply]
  split <;> rfl

@[simp] theorem move_ids : (s.move c t stage).sessions.map (·.id) = s.sessions.map (·.id) := by
  unfold move
  rw [List.map_map]
  apply List.map_congr_left
  intro u _
  dsimp only [Function.comp_apply]
  split <;> rfl

end Projections

/-- The log's pin of buffer `i`: one if the buffer's block is in the log. -/
def logPin (dev : Nat) (i : Fin NBUF) : Nat :=
  if (s.cache.buf i).dev = dev ∧ (s.cache.buf i).blockno ∈ s.lh then 1 else 0

end State

inductive Action
  | bget (b : Nat)
  | acquiresleep (t : Nat)
  /-- the rest of `bread` -/
  | bread (t : Nat)
  | modify (t : Nat) (data : Block)
  | bwrite (t : Nat)
  | logWrite (t : Nat)
  | releasesleep (t : Nat)
  /-- the rest of `brelse` -/
  | brelse (t : Nat)
  | bpin (t : Nat)
  | bunpin (i : Fin NBUF)
  /-- `bunpin` in `install_trans`, after its `bwrite` -/
  | installed (t : Nat)

inductive Effect
  /-- `bread` of a block returns. -/
  | returned (b : Nat) (data : Block)
  /-- `bwrite` or `log_write` of a block. -/
  | stored (b : Nat) (data : Block)

/-- `log_write` with the lock of the buffer held: the buffer is pinned if its block is new to the
log. -/
def State.logWrite (s : State) (i : Fin NBUF) : Cache × List Nat :=
  let b := (s.cache.buf i).blockno
  -- log absorption
  if b ∈ s.lh then (s.cache, s.lh) else (s.cache.bpin i, s.lh ++ [b])

/-- One step of the sessions; the panics end a run. -/
def exec (dev : Nat) (s : State) : Action → Option (State × Option Effect)
  | .bget b =>
    match s.cache.bget dev b with
    | some (c, i) => some (s.enter c i, none)
    | none => none
  | .acquiresleep t =>
    match s.session t (· = .waiting) with
    | some u =>
      if (s.cache.buf u.buf).lock = none then
        some (s.move (s.cache.acquiresleep u.buf t) t .locked, none)
      else none
    | none => none
  | .bread t =>
    match s.session t (· = .locked) with
    | some u =>
      let c := s.cache.read u.buf
      some (s.move c t (.holding .same),
        some (.returned (c.buf u.buf).blockno (c.buf u.buf).data))
    | none => none
  | .modify t data =>
    match s.session t Stage.isHolding with
    | some u => some (s.move (s.cache.fill u.buf data) t (.holding .modified), none)
    | none => none
  | .bwrite t =>
    match s.session t Stage.isHolding with
    | some u =>
      some (s.move (s.cache.bwrite u.buf) t (.holding .written),
        some (.stored (s.cache.buf u.buf).blockno (s.cache.buf u.buf).data))
    | none => none
  | .logWrite t =>
    match s.session t Stage.isHolding with
    | some u =>
      if s.lh.length < LOGBLOCKS then
        some ({ s.move (s.logWrite u.buf).1 t (.holding .same) with lh := (s.logWrite u.buf).2 },
          some (.stored (s.cache.buf u.buf).blockno (s.cache.buf u.buf).data))
      else none
    | none => none
  | .releasesleep t =>
    match s.session t Stage.handedOn with
    | some u => some (s.move (s.cache.releasesleep u.buf) t .unlocked, none)
    | none => none
  | .brelse t =>
    match s.session t (· = .unlocked) with
    | some u => some (s.leave (s.cache.brelse u.buf) t, none)
    | none => none
  | .bpin t =>
    match s.session t Stage.isHolding with
    | some u =>
      some ({ s with
        cache := s.cache.bpin u.buf
        pins := update s.pins u.buf (s.pins u.buf + 1) }, none)
    | none => none
  | .bunpin i =>
    if 0 < s.pins i then
      some ({ s with
        cache := s.cache.bunpin i, pins := update s.pins i (s.pins i - 1) }, none)
    else none
  | .installed t =>
    match s.session t (· = .holding .written) with
    | some u =>
      if (s.cache.buf u.buf).blockno ∈ s.lh then
        some ({ s with
          cache := s.cache.bunpin u.buf, lh := s.lh.erase (s.cache.buf u.buf).blockno }, none)
      else none
    | none => none

/-- The cache after `binit`, over a disk with the given content. -/
def system (dev : Nat) (disk : Nat → Block) : Lts State (Action × Option Effect) :=
  Lts.ofExec (· = { cache := binit disk }) (exec dev)

/-- The plain array of blocks, and what the sessions are for. -/
structure History where
  /-- what was stored last in each block -/
  array : Nat → Block
  /-- the block that each session's `bread` was called for -/
  asked : Nat → Nat := fun _ => 0

def latest (array : Nat → Block) : Option Effect → Nat → Block
  | some (.stored b data) => update array b data
  | _ => array

def asking (asked : Nat → Nat) (id : Nat) : Action → Nat → Nat
  | .bget b => update asked id b
  | _ => asked

def note (h : History) (s : State) (label : Action × Option Effect) : History where
  array := latest h.array label.2
  asked := asking h.asked s.nextId label.1

/-- The runs of the cache, with the array that it stands for. -/
def observed (dev : Nat) (disk : Nat → Block) : Lts (State × History) (Action × Option Effect) :=
  (system dev disk).observed { array := disk } note

/-- The cache as `Xv6.Log` sees it: the valid buffers by their block. -/
def Cache.io (c : Cache) (dev : Nat) : Log.Io where
  disk := c.disk
  cache b := ((c.cached dev b).filter fun i => (c.buf i).valid).map fun i =>
    { data := (c.buf i).data, refcnt := (c.buf i).refcnt }

/-- **The cache stands for the array.** A `bread` returns a buffer of the block that it was called
for. What `Xv6.Log` and `Xv6.Fs` take for the content of a block is the array's, unless a session
is changing the block. -/
structure Refines (dev : Nat) (s : State) (h : History) : Prop where
  unique : ∀ i j, (s.cache.buf i).dev ≠ 0 → (s.cache.buf i).dev = (s.cache.buf j).dev →
    (s.cache.buf i).blockno = (s.cache.buf j).blockno → i = j
  ring : ∃ order : List (Fin NBUF), order.Perm (List.finRange NBUF) ∧ s.cache.links.Ring order
  inverse : ∀ p, s.cache.links.prev (s.cache.links.next p) = p ∧
    s.cache.links.next (s.cache.links.prev p) = p
  kept : ∀ a s' effect i, exec dev s a = some (s', effect) → 0 < (s.cache.buf i).refcnt →
    (s'.cache.buf i).dev = (s.cache.buf i).dev ∧ (s'.cache.buf i).blockno = (s.cache.buf i).blockno
  bread : ∀ a s' b data, exec dev s a = some (s', some (.returned b data)) →
    data = h.array b ∧ ∃ u ∈ s'.sessions, a = .bread u.id ∧ h.asked u.id = b ∧
      (s'.cache.buf u.buf).dev = dev ∧ (s'.cache.buf u.buf).blockno = b ∧
      (s'.cache.buf u.buf).data = data
  content : ∀ b, (∀ u ∈ s.sessions, h.asked u.id = b → u.stage ≠ .holding .modified) →
    (s.cache.io dev).content b = h.array b

end Xv6.Bio
