import Xv6.Lib.Bytes
import Xv6.Lib.Redo
import Xv6.Lib.Transition
import Mathlib.Data.List.Nodup

/-!
# The log

`kernel/log.c` over the buffer cache of `kernel/bio.c` and a disk whose
single-block writes are atomic and synchronous, as a transition system: any
number of operations run between `begin_op` and `end_op`, the last `end_op`
commits, and the machine can crash at any moment.

A step of `commit` or `recover_from_log` makes at most one disk write, so that a
crash can fall between any two of them. A buffer is modified and handed to
`log_write` in one step, since its lock is held in between and no commit runs
while an operation is under way. The cache may hold any blocks and may recycle
any buffer with no references; which ones it recycles is a choice of the run.
`Bio.Refines.content` ties this `Io` to the cache of `kernel/bio.c` with its list.

A panic (`log_write` with a full log or outside an operation) leaves nothing but
a crash to happen, and is a step that is not taken.
-/

namespace Xv6.Log

open Function (update)

def BSIZE : Nat := 1024
def MAXOPBLOCKS : Nat := 10
def LOGBLOCKS : Nat := MAXOPBLOCKS * 3

/-- The content of a disk block. -/
abbrev Block := Bytes BSIZE

/-! ## The buffer cache -/

/-- A valid buffer; its block number is its place in the cache. -/
structure Buf where
  data : Block
  refcnt : Nat

/-- The disk and the buffer cache. -/
structure Io where
  disk : Nat → Block
  cache : Nat → Option Buf

/-- What `bread` finds: the cached content, or else the disk's. -/
def Io.content (io : Io) (b : Nat) : Block :=
  match io.cache b with
  | some buf => buf.data
  | none => io.disk b

/-- The references to the buffer of a block, 0 if it is not cached. -/
def Io.refs (io : Io) (b : Nat) : Nat :=
  match io.cache b with
  | some buf => buf.refcnt
  | none => 0

def Io.setBuf (io : Io) (b : Nat) (data : Block) (refcnt : Nat) : Io :=
  { io with cache := update io.cache b (some { data, refcnt }) }

/-- References to the buffer of a block are taken or dropped. -/
def Io.recount (io : Io) (b : Nat) (f : Nat → Nat) : Io :=
  io.setBuf b (io.content b) (f (io.refs b))

abbrev Io.bread (io : Io) (b : Nat) : Io := io.recount b (· + 1)

def Io.fill (io : Io) (b : Nat) (data : Block) : Io :=
  io.setBuf b data (io.refs b)

def Io.bwrite (io : Io) (b : Nat) : Io :=
  { io with disk := update io.disk b (io.content b) }

abbrev Io.brelse (io : Io) (b : Nat) : Io := io.recount b (· - 1)

abbrev Io.bpin (io : Io) (b : Nat) : Io := io.recount b (· + 1)

abbrev Io.bunpin (io : Io) (b : Nat) : Io := io.recount b (· - 1)

/-- `bget` recycles the buffer of block `b`. -/
def Io.evict (io : Io) (b : Nat) : Io :=
  { io with cache := update io.cache b none }

section Projections

variable (io : Io) (b b' : Nat) (data : Block) (refcnt : Nat) (f : Nat → Nat)

@[simp, grind =] theorem Io.setBuf_disk : (io.setBuf b data refcnt).disk = io.disk := rfl
@[simp, grind =] theorem Io.setBuf_content :
    (io.setBuf b data refcnt).content b' = if b' = b then data else io.content b' := by
  by_cases here : b' = b <;> simp [Io.content, Io.setBuf, here]

@[simp, grind =] theorem Io.setBuf_refs :
    (io.setBuf b data refcnt).refs b' = if b' = b then refcnt else io.refs b' := by
  by_cases here : b' = b <;> simp [Io.refs, Io.setBuf, here]

@[simp, grind =] theorem Io.recount_disk : (io.recount b f).disk = io.disk := rfl
@[simp, grind =] theorem Io.recount_content : (io.recount b f).content b' = io.content b' := by
  by_cases here : b' = b <;> simp [Io.recount, here]

@[simp, grind =] theorem Io.recount_refs :
    (io.recount b f).refs b' = if b' = b then f (io.refs b) else io.refs b' := by
  simp [Io.recount]

@[simp, grind =] theorem Io.fill_disk : (io.fill b data).disk = io.disk := rfl
@[simp, grind =] theorem Io.fill_content :
    (io.fill b data).content b' = if b' = b then data else io.content b' := by
  simp [Io.fill]

@[simp, grind =] theorem Io.fill_refs : (io.fill b data).refs b' = io.refs b' := by
  by_cases here : b' = b <;> simp [Io.fill, here]

@[simp, grind =] theorem Io.bwrite_disk :
    (io.bwrite b).disk b' = if b' = b then io.content b else io.disk b' := by
  simp [Io.bwrite, Function.update_apply]

@[simp, grind =] theorem Io.bwrite_content : (io.bwrite b).content b' = io.content b' := by
  unfold Io.content Io.bwrite
  cases cached : io.cache b' with
  | some buf => simp
  | none =>
    by_cases here : b' = b
    · subst here
      simp [Io.content, cached]
    · simp [here]

@[simp, grind =] theorem Io.bwrite_refs : (io.bwrite b).refs b' = io.refs b' := rfl

@[simp, grind =] theorem Io.evict_disk : (io.evict b).disk = io.disk := rfl
@[simp, grind =] theorem Io.evict_content :
    (io.evict b).content b' = if b' = b then io.disk b else io.content b' := by
  by_cases here : b' = b <;> simp [Io.content, Io.evict, here]

@[simp, grind =] theorem Io.evict_refs :
    (io.evict b).refs b' = if b' = b then 0 else io.refs b' := by
  by_cases here : b' = b <;> simp [Io.refs, Io.evict, here]

end Projections

/-! ## The header block and the loops of `log.c`, one iteration each -/

/-- `write_head` stores `log.lh` in the header block's buffer; the rest of the
buffer stays. -/
def putHead (lh : List Nat) (data : Block) : Block :=
  (data.setWord 0 lh.length).setWords 1 lh

/-- `read_head`: `n` is an `int`, and no entry is read if it is negative. -/
def getHead (data : Block) : List Nat :=
  data.words 1 (if data.word 0 < 2 ^ 31 then data.word 0 else 0)

def writeHead (io : Io) (start : Nat) (lh : List Nat) : Io :=
  let io := io.bread start
  let io := io.fill start (putHead lh (io.content start))
  (io.bwrite start).brelse start

/-- `write_log` for one `tail`, with `b = log.lh.block[tail]`. -/
def writeLogBlock (io : Io) (start tail b : Nat) : Io :=
  let dst := start + tail + 1
  let io := (io.bread dst).bread b
  let io := io.fill dst (io.content b)
  ((io.bwrite dst).brelse b).brelse dst

/-- `install_trans` for one `tail`, with `b = log.lh.block[tail]`. -/
def installBlock (recovering : Bool) (io : Io) (start tail b : Nat) : Io :=
  let src := start + tail + 1
  let io := (io.bread src).bread b
  let io := io.fill b (io.content src)
  let io := io.bwrite b
  let io := if recovering then io else io.bunpin b
  (io.brelse src).brelse b

/-- `log_write` of block `b`, whose buffer the caller has read and filled with
`data`, and `brelse` after it. -/
def logWriteBlock (io : Io) (lh : List Nat) (b : Nat) (data : Block) : Io × List Nat :=
  let io := (io.bread b).fill b data
  -- log absorption
  if b ∈ lh then (io.brelse b, lh) else ((io.bpin b).brelse b, lh ++ [b])

section Effects

variable (io : Io) (start tail b b' : Nat) (lh : List Nat) (data : Block) (recovering : Bool)

@[simp, grind =] theorem writeHead_disk : (writeHead io start lh).disk b' =
    if b' = start then putHead lh (io.content start) else io.disk b' := by
  simp [writeHead]

@[simp, grind =] theorem writeHead_content : (writeHead io start lh).content b' =
    if b' = start then putHead lh (io.content start) else io.content b' := by
  simp [writeHead]

@[simp, grind =] theorem writeHead_refs : (writeHead io start lh).refs b' = io.refs b' := by
  by_cases here : b' = start <;> simp [writeHead, here]

@[simp, grind =] theorem writeLogBlock_disk : (writeLogBlock io start tail b).disk b' =
    if b' = start + tail + 1 then io.content b else io.disk b' := by
  simp [writeLogBlock]

@[simp, grind =] theorem writeLogBlock_content : (writeLogBlock io start tail b).content b' =
    if b' = start + tail + 1 then io.content b else io.content b' := by
  simp [writeLogBlock]

@[simp, grind =] theorem writeLogBlock_refs :
    (writeLogBlock io start tail b).refs b' = io.refs b' := by
  simp only [writeLogBlock, Io.recount_refs, Io.bwrite_refs, Io.fill_refs]
  grind

@[simp, grind =] theorem installBlock_disk : (installBlock recovering io start tail b).disk b' =
    if b' = b then io.content (start + tail + 1) else io.disk b' := by
  cases recovering <;> simp [installBlock]

@[simp, grind =] theorem installBlock_content :
    (installBlock recovering io start tail b).content b' =
      if b' = b then io.content (start + tail + 1) else io.content b' := by
  cases recovering <;> simp [installBlock]

theorem installBlock_refs (other : b' ≠ b) :
    (installBlock recovering io start tail b).refs b' = io.refs b' := by
  cases recovering <;> by_cases src : b' = start + tail + 1 <;> simp [installBlock, src, other]
  all_goals grind

@[simp, grind =] theorem logWriteBlock_disk :
    (logWriteBlock io lh b data).1.disk b' = io.disk b' := by
  unfold logWriteBlock
  split <;> simp

@[simp, grind =] theorem logWriteBlock_content : (logWriteBlock io lh b data).1.content b' =
    if b' = b then data else io.content b' := by
  unfold logWriteBlock
  split <;> simp

theorem logWriteBlock_refs : (logWriteBlock io lh b data).1.refs b' =
    if b' = b ∧ b ∉ lh then io.refs b + 1 else io.refs b' := by
  unfold logWriteBlock
  by_cases logged : b ∈ lh <;> by_cases here : b' = b <;> simp [logged, here]

theorem logWriteBlock_lh : (logWriteBlock io lh b data).2 = if b ∈ lh then lh else lh ++ [b] := by
  unfold logWriteBlock
  split <;> rfl

end Effects

theorem getHead_putHead (data : Block) (room : lh.length ≤ LOGBLOCKS)
    (small : ∀ b ∈ lh, b < 2 ^ 32) : getHead (putHead lh data) = lh := by
  have bound : lh.length ≤ 30 := room
  have count : (putHead lh data).word 0 = lh.length := by
    rw [putHead, Bytes.word_setWords_before _ _ (by omega),
      Bytes.word_setWord_self _ _ (by unfold BSIZE; omega)]
    omega
  rw [getHead, count, if_pos (by omega)]
  exact Bytes.words_setWords _ lh (by unfold BSIZE; omega) small

theorem getHead_of_word_zero (empty : data.word 0 = 0) : getHead data = [] := by
  simp [getHead, empty, Bytes.words]

/-- Where the machine is in `commit` or in `recover_from_log`. -/
inductive Phase
  | running
  /-- `write_log` has copied the blocks before `tail`. -/
  | writeLog (tail : Nat)
  /-- The header is written; `install_trans` has installed the blocks before `tail`. -/
  | install (tail : Nat)
  | endCommit
  /-- Crashed, or not yet started. -/
  | down
  /-- `recover_from_log` has read the header and installed the blocks before `tail`. -/
  | recover (tail : Nat)
  /-- `recover_from_log` has returned. -/
  | recovered
  deriving DecidableEq

/-- The disk, the cache, `struct log`, and the operations under way, which are
numbered in the order of their `begin_op`. -/
structure State where
  io : Io
  lh : List Nat
  outstanding : Nat
  committing : Bool
  phase : Phase
  active : List Nat
  nextOp : Nat

inductive Action
  | beginOp
  /-- Operation `t` fills the buffer of block `b` with `data` and logs it. -/
  | logWrite (t b : Nat) (data : Block)
  | endOp (t : Nat)
  | commit
  | read (b : Nat)
  | evict (b : Nat)
  | crash
  | recover

inductive Effect
  | logged (t b : Nat) (data : Block)
  | committed
  | erased
  | crashed

/-- Has `fsinit` finished, so that processes call the file system? -/
def Phase.up : Phase → Bool
  | .running | .writeLog _ | .install _ | .endCommit => true
  | .down | .recover _ | .recovered => false

/-- The blocks that are not part of the log on disk. -/
def Outside (start b : Nat) : Prop :=
  b < start ∨ start + LOGBLOCKS < b
  deriving Decidable

/-- `end_op` when it leaves the log to the calling process to commit. -/
def State.startCommit (s : State) : State :=
  { s with
    committing := true
    phase := if s.lh.length > 0 then .writeLog 0 else .endCommit }

def endOp (s : State) (t : Nat) : State :=
  let s := { s with outstanding := s.outstanding - 1, active := s.active.erase t }
  if s.outstanding = 0 then s.startCommit else s

def commit (start : Nat) (s : State) : Option (State × Option Effect) :=
  match s.phase with
  | .writeLog tail =>
    if h : tail < s.lh.length then
      some ({ s with io := writeLogBlock s.io start tail s.lh[tail],
                     phase := .writeLog (tail + 1) }, none)
    else
      some ({ s with io := writeHead s.io start s.lh, phase := .install 0 }, some .committed)
  | .install tail =>
    if h : tail < s.lh.length then
      some ({ s with io := installBlock false s.io start tail s.lh[tail],
                     phase := .install (tail + 1) }, none)
    else
      some ({ s with io := writeHead s.io start [], lh := [], phase := .endCommit },
        some .erased)
  | .endCommit => some ({ s with committing := false, phase := .running }, none)
  | _ => none

def recover (start : Nat) (s : State) : Option State :=
  match s.phase with
  | .down =>
    some { s with io := (s.io.bread start).brelse start, lh := getHead (s.io.content start),
                  phase := .recover 0 }
  | .recover tail =>
    if h : tail < s.lh.length then
      some { s with io := installBlock true s.io start tail s.lh[tail],
                    phase := .recover (tail + 1) }
    else some { s with io := writeHead s.io start [], lh := [], phase := .recovered }
  | .recovered => some { s with phase := .running }
  | _ => none

/-- The machine with disk `disk` before it has started, or after a crash. -/
def off (disk : Nat → Block) (nextOp : Nat) : State where
  io := { disk, cache := fun _ => none }
  lh := []
  outstanding := 0
  committing := false
  phase := .down
  active := []
  nextOp := nextOp

def exec (start : Nat) (s : State) : Action → Option (State × Option Effect)
  | .beginOp =>
    -- `begin_op` sleeps while a commit is under way or log space is short
    if s.phase.up ∧ !s.committing ∧
        s.lh.length + (s.outstanding + 1) * MAXOPBLOCKS ≤ LOGBLOCKS then
      some ({ s with outstanding := s.outstanding + 1, active := s.nextOp :: s.active,
                     nextOp := s.nextOp + 1 }, none)
    else none
  | .logWrite t b data =>
    if t ∈ s.active ∧ b < 2 ^ 32 ∧ Outside start b ∧ s.lh.length < LOGBLOCKS ∧
        1 ≤ s.outstanding then
      some ({ s with io := (logWriteBlock s.io s.lh b data).1,
                     lh := (logWriteBlock s.io s.lh b data).2 }, some (.logged t b data))
    else none
  | .endOp t => if t ∈ s.active ∧ !s.committing then some (endOp s t, none) else none
  | .commit => commit start s
  | .read b =>
    if s.phase.up then some ({ s with io := (s.io.bread b).brelse b }, none) else none
  | .evict b => if s.io.refs b = 0 then some ({ s with io := s.io.evict b }, none) else none
  | .crash => some (off s.io.disk s.nextOp, some .crashed)
  | .recover => (recover start s).map fun s => (s, none)

abbrev Label := Action × Option Effect

/-- The log from the first start of the machine on, with `disk` in it. -/
def system (start : Nat) (disk : Nat → Block) : Lts State Label :=
  Lts.ofExec (· = off disk 0) (exec start)

end Xv6.Log
