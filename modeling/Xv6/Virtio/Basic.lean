import Xv6.Log.Basic

/-!
# The virtio disk driver

`virtio_disk_rw` and `virtio_disk_intr` of `kernel/virtio_disk.c`, with the disk device, as a
transition system. Threads of a type `P` run in either function, as many as there are, on
buffers of a type `B`; the device works at the same time.

The driver's data are under `disk.vdisk_lock`, but the device shares the memory of the rings, so
that a step of the driver has at most one access that the device can see: the write to
`avail->ring`, that to `avail->idx`, and each read of `used`. `sleep` gives the lock back, and it
may return at any time, since `kkill` wakes up a process on any channel.

The callers are `bread` and `bwrite`, who have the buffer's sleep-lock. `bget` gives a buffer its
block number together with the lock.

The device takes chains from the avail ring in their order, completes those it has taken in any
order, and posts the head of each in the used ring. To complete a chain it reads the three
descriptors, moves the block and writes the status 0. Memory is sequentially consistent, as the
calls of `__sync_synchronize` see to.
-/

namespace Xv6.Virtio

open Log (BSIZE Block)
open Function (update)

def NUM : Nat := 8

def VRING_DESC_F_NEXT : UInt16 := 1
def VRING_DESC_F_WRITE : UInt16 := 2
def VIRTIO_BLK_T_IN : Nat := 0
def VIRTIO_BLK_T_OUT : Nat := 1

inductive Panic
  | freeDesc1 | freeDesc2 | intrStatus
  /-- `virtio_disk_intr` uses a null pointer as a buffer. -/
  | nullBuf
  deriving DecidableEq

/-! ## The memory of the driver -/

/-- What the address in a descriptor points to. -/
inductive Addr (B : Type)
  | null
  /-- `&disk.ops[i]` -/
  | op (i : Nat)
  /-- `b->data` -/
  | data (b : B)
  /-- `&disk.info[i].status` -/
  | status (i : Nat)
  deriving DecidableEq

structure VirtqDesc (B : Type) where
  addr : Addr B := .null
  len : Nat := 0
  flags : UInt16 := 0
  next : Nat := 0

structure VirtqAvail where
  idx : UInt16 := 0
  ring : Nat → Nat := fun _ => 0

/-- The used ring; of its elements only `id` is read. -/
structure VirtqUsed where
  idx : UInt16 := 0
  ring : Nat → Nat := fun _ => 0

structure VirtioBlkReq where
  type : Nat := 0
  reserved : Nat := 0
  sector : Nat := 0

structure Info (B : Type) where
  b : Option B := none
  status : UInt8 := 0

/-- `struct disk`, after `virtio_disk_init`. -/
structure Disk (B : Type) where
  desc : Nat → VirtqDesc B := fun _ => {}
  avail : VirtqAvail := {}
  used : VirtqUsed := {}
  free : Nat → Bool := fun i => i < NUM
  /-- `used_idx`: how far the driver has looked in the used ring. -/
  usedIdx : UInt16 := 0
  info : Nat → Info B := fun _ => {}
  ops : Nat → VirtioBlkReq := fun _ => {}

/-- The arguments of `virtio_disk_rw`, and the descriptors `idx` that it has got. -/
structure Request (B : Type) where
  b : B
  write : Bool
  idx0 : Nat
  idx1 : Nat
  idx2 : Nat
  deriving DecidableEq

def Request.idx {B : Type} (r : Request B) : List Nat := [r.idx0, r.idx1, r.idx2]

namespace Disk

variable {B : Type}

def allocDesc (d : Disk B) : Option Nat × Disk B :=
  match (List.range NUM).find? d.free with
  | some i => (some i, { d with free := update d.free i false })
  | none => (none, d)

def freeDesc (d : Disk B) (i : Nat) : Except Panic (Disk B) :=
  if NUM ≤ i then .error .freeDesc1
  else if d.free i then .error .freeDesc2
  else .ok { d with
    desc := update d.desc i {}
    free := update d.free i true }

/-- `free_chain`. Each round frees a descriptor that was not free, so that there are at most
`NUM + 1`. -/
def freeChain : Nat → Disk B → Nat → Except Panic (Disk B)
  | 0, d, _ => .ok d
  | fuel + 1, d, i =>
    match d.freeDesc i with
    | .error e => .error e
    | .ok d' =>
      if (d.desc i).flags &&& VRING_DESC_F_NEXT ≠ 0 then freeChain fuel d' (d.desc i).next
      else .ok d'

/-- `alloc3_desc`, with the descriptors, or none if there are not three. -/
def alloc3Desc (d : Disk B) : Except Panic (Option (Nat × Nat × Nat) × Disk B) :=
  match d.allocDesc with
  | (none, d) => .ok (none, d)
  | (some idx0, d) =>
    match d.allocDesc with
    | (none, d) => (d.freeDesc idx0).map fun d => (none, d)
    | (some idx1, d) =>
      match d.allocDesc with
      | (none, d) => ((d.freeDesc idx0).bind fun d => d.freeDesc idx1).map fun d => (none, d)
      | (some idx2, d) => .ok (some (idx0, idx1, idx2), d)

/-- The three descriptors of a request, and what `virtio_disk_intr` needs to know. -/
def format (d : Disk B) (r : Request B) (sector : Nat) : Disk B :=
  { d with
    ops := update d.ops r.idx0
      { type := if r.write then VIRTIO_BLK_T_OUT else VIRTIO_BLK_T_IN, sector := sector }
    desc := update (update (update d.desc
      r.idx0 { addr := .op r.idx0, len := 16, flags := VRING_DESC_F_NEXT, next := r.idx1 })
      r.idx1
        { addr := .data r.b, len := BSIZE, next := r.idx2
          flags := (if r.write then 0 else VRING_DESC_F_WRITE) ||| VRING_DESC_F_NEXT })
      r.idx2 { addr := .status r.idx0, len := 1, flags := VRING_DESC_F_WRITE, next := 0 }
    info := update d.info r.idx0 { b := some r.b, status := 0xff } }

/-- `disk.avail->ring[disk.avail->idx % NUM] = idx[0]` -/
def fill (d : Disk B) (head : Nat) : Disk B :=
  { d with avail := { d.avail with ring := update d.avail.ring (d.avail.idx.toNat % NUM) head } }

/-- `disk.avail->idx += 1` -/
def publish (d : Disk B) : Disk B := { d with avail := { d.avail with idx := d.avail.idx + 1 } }

/-- `disk.info[i].b = 0` -/
def forget (d : Disk B) (i : Nat) : Disk B :=
  { d with info := update d.info i { d.info i with b := none } }

/-- The entry of the used ring that the driver reads next. -/
def nextUsed (d : Disk B) : Nat := d.used.ring (d.usedIdx.toNat % NUM)

end Disk

/-- Where a thread is. The points from `alloc` to `finish`, apart from the two in `sleep`, have
`vdisk_lock`, and so have those of `virtio_disk_intr` after `intr`. -/
inductive Pc (B : Type)
  | user
  /-- `virtio_disk_rw`, about to acquire `vdisk_lock`. -/
  | acquire (b : B) (write : Bool)
  | alloc (b : B) (write : Bool)
  /-- In `sleep` on `&disk.free[0]`. -/
  | sleepFree (b : B) (write : Bool)
  /-- About to fill in the descriptors. -/
  | format (r : Request B)
  /-- About to write to `avail->ring`. -/
  | fill (r : Request B)
  /-- About to add 1 to `avail->idx`. -/
  | publish (r : Request B)
  /-- At the head of the loop that waits for `b->disk`. -/
  | wait (r : Request B)
  /-- In `sleep` on `b`. -/
  | sleepBuf (r : Request B)
  | finish (r : Request B)
  | intr
  | intrTest
  /-- About to read an entry of the used ring. -/
  | intrHandle
  /-- About to add 1 to `used_idx`. -/
  | intrAdvance
  deriving DecidableEq

structure Buf (P : Type) where
  blockno : UInt32 := 0
  /-- Does the device own the buffer? -/
  disk : Bool := false
  data : Block := fun _ => 0
  lock : Option P := none

/-- `b->blockno * (BSIZE / 512)`, a product of 32 bits. -/
def Buf.sector {P : Type} (b : Buf P) : Nat := (b.blockno * 2).toNat

/-- The device: the next entry of the avail ring, the chains that it has taken and not completed,
those that it has completed and not posted, the one whose entry it has written to the used ring
but not counted, and the blocks by their first sector. -/
structure Device where
  next : UInt16 := 0
  serving : List Nat := []
  done : List Nat := []
  posting : Option Nat := none
  blocks : Nat → Block := fun _ _ => 0

structure State (P B : Type) where
  disk : Disk B := {}
  device : Device := {}
  buf : B → Buf P := fun _ => {}
  lock : Option P := none
  pc : P → Pc B := fun _ => .user
  panicked : Option Panic := none

inductive Action (P B : Type)
  /-- `bget` locks the buffer, which may have been given another block. -/
  | acquiresleep (p : P) (b : B) (blockno : UInt32)
  | modify (p : P) (b : B) (data : Block)
  | releasesleep (p : P) (b : B)
  | rw (p : P) (b : B) (write : Bool)
  | intr (p : P)
  | run (p : P)
  /-- The device takes a chain from the avail ring. -/
  | take
  | complete (head : Nat)
  /-- The device writes an entry of the used ring. -/
  | post (head : Nat)
  /-- The device adds 1 to `used->idx`. -/
  | count

section System

variable {P B : Type} [DecidableEq P] [DecidableEq B]

namespace State

def goes (s : State P B) (p : P) (pc : Pc B) : State P B :=
  { s with pc := update s.pc p pc }

def setBuf (s : State P B) (b : B) (f : Buf P → Buf P) : State P B :=
  { s with buf := update s.buf b (f (s.buf b)) }

def acquires (s : State P B) (p : P) (pc : Pc B) : Option (State P B) :=
  if s.lock = none then some ({ s with lock := some p }.goes p pc) else none

def releases (s : State P B) (p : P) (pc : Pc B) : State P B := { s with lock := none }.goes p pc

def panics (s : State P B) (e : Panic) : State P B := { s with panicked := some e }

/-- `alloc3_desc`, and `sleep` if it fails. -/
def allocates (s : State P B) (p : P) (b : B) (write : Bool) : State P B :=
  match s.disk.alloc3Desc with
  | .error e => s.panics e
  | .ok (none, d) => { s with disk := d }.releases p (.sleepFree b write)
  | .ok (some (idx0, idx1, idx2), d) => { s with disk := d }.goes p
      (.format ⟨b, write, idx0, idx1, idx2⟩)

/-- The end of `virtio_disk_rw`. -/
def finishes (s : State P B) (p : P) (r : Request B) : State P B :=
  match Disk.freeChain (NUM + 1) (s.disk.forget r.idx0) r.idx0 with
  | .error e => s.panics e
  | .ok d => { s with disk := d }.releases p .user

/-- The body of the loop of `virtio_disk_intr`, up to the count. -/
def handles (s : State P B) (p : P) : State P B :=
  let info := s.disk.info s.disk.nextUsed
  if info.status ≠ 0 then s.panics .intrStatus
  else
    match info.b with
    | none => s.panics .nullBuf
    | some b => (s.setBuf b fun v => { v with disk := false }).goes p .intrAdvance

def run (s : State P B) (p : P) : Option (State P B) :=
  match s.pc p with
  | .user => none
  | .acquire b write | .sleepFree b write => s.acquires p (.alloc b write)
  | .alloc b write => some (s.allocates p b write)
  | .format r =>
    some (({ s with disk := s.disk.format r (s.buf r.b).sector }.setBuf r.b
      fun v => { v with disk := true }).goes p (.fill r))
  | .fill r => some ({ s with disk := s.disk.fill r.idx0 }.goes p (.publish r))
  | .publish r => some ({ s with disk := s.disk.publish }.goes p (.wait r))
  | .wait r =>
    if (s.buf r.b).disk then some (s.releases p (.sleepBuf r)) else some (s.goes p (.finish r))
  | .sleepBuf r => s.acquires p (.wait r)
  | .finish r => some (s.finishes p r)
  | .intr => s.acquires p .intrTest
  | .intrTest =>
    if s.disk.usedIdx ≠ s.disk.used.idx then some (s.goes p .intrHandle)
    else some (s.releases p .user)
  | .intrHandle => some (s.handles p)
  | .intrAdvance =>
    some ({ s with disk := { s.disk with usedIdx := s.disk.usedIdx + 1 } }.goes p .intrTest)

/-! ### The device -/

def take (s : State P B) : Option (State P B) :=
  if s.device.next = s.disk.avail.idx then none
  else some { s with device := { s.device with
    next := s.device.next + 1
    serving := s.disk.avail.ring (s.device.next.toNat % NUM) :: s.device.serving } }

/-- Move a block between a buffer and the disk. -/
def transfer (s : State P B) (req : VirtioBlkReq) (b : B) : State P B :=
  if req.type = VIRTIO_BLK_T_OUT then
    { s with device := { s.device with
      blocks := update s.device.blocks req.sector (s.buf b).data } }
  else s.setBuf b fun v => { v with data := s.device.blocks req.sector }

/-- The device writes the status 0. -/
def setStatus (s : State P B) (i : Nat) : State P B :=
  { s with disk := { s.disk with info := update s.disk.info i { s.disk.info i with status := 0 } } }

/-- The work of a chain, as its descriptors say. A device does nothing with descriptors that are not
of this form. -/
def serve (s : State P B) (head : Nat) : State P B :=
  let first := s.disk.desc head
  let second := s.disk.desc first.next
  let third := s.disk.desc second.next
  match first.addr, second.addr, third.addr with
  | .op i, .data b, .status j => (s.transfer (s.disk.ops i) b).setStatus j
  | _, _, _ => s

def complete (s : State P B) (head : Nat) : Option (State P B) :=
  if head ∈ s.device.serving then
    let s := s.serve head
    some { s with device := { s.device with
      serving := s.device.serving.erase head, done := head :: s.device.done } }
  else none

def post (s : State P B) (head : Nat) : Option (State P B) :=
  if head ∈ s.device.done ∧ s.device.posting = none then
    some { s with
      disk := { s.disk with used := { s.disk.used with
        ring := update s.disk.used.ring (s.disk.used.idx.toNat % NUM) head } }
      device := { s.device with done := s.device.done.erase head, posting := some head } }
  else none

def count (s : State P B) : Option (State P B) :=
  match s.device.posting with
  | none => none
  | some _ =>
    some { s with
      disk := { s.disk with used := { s.disk.used with idx := s.disk.used.idx + 1 } }
      device := { s.device with posting := none } }

end State

/-- A step of the system; there is none after a panic. -/
def step (s : State P B) : Action P B → Option (State P B)
  | .acquiresleep p b blockno =>
    if s.pc p = .user ∧ (s.buf b).lock = none then
      some (s.setBuf b fun v => { v with blockno := blockno, lock := some p })
    else none
  | .modify p b data =>
    if s.pc p = .user ∧ (s.buf b).lock = some p then
      some (s.setBuf b fun v => { v with data := data })
    else none
  | .releasesleep p b =>
    if s.pc p = .user ∧ (s.buf b).lock = some p then
      some (s.setBuf b fun v => { v with lock := none })
    else none
  | .rw p b write =>
    if s.pc p = .user ∧ (s.buf b).lock = some p then some (s.goes p (.acquire b write)) else none
  | .intr p => if s.pc p = .user then some (s.goes p .intr) else none
  | .run p => s.run p
  | .take => s.take
  | .complete head => s.complete head
  | .post head => s.post head
  | .count => s.count

def exec (s : State P B) (a : Action P B) : Option (State P B × Unit) :=
  if s.panicked = none then (step s a).map fun s => (s, ()) else none

def system (P B : Type) [DecidableEq P] [DecidableEq B] : Lts (State P B) (Action P B × Unit) :=
  .ofExec (fun s => ∃ blocks, s = { device := { blocks := blocks } }) exec

/-! ## What a run shows -/

/-- The points at which a thread has the descriptors of a request. -/
def Pc.request : Pc B → Option (Request B)
  | .format r | .fill r | .publish r | .wait r | .sleepBuf r | .finish r => some r
  | _ => none

/-- The points at which the descriptors are filled in. -/
def Pc.formatted : Pc B → Option (Request B)
  | .fill r | .publish r | .wait r | .sleepBuf r | .finish r => some r
  | _ => none

/-- The points at which the device knows of the request. -/
def Pc.sent : Pc B → Option (Request B)
  | .wait r | .sleepBuf r | .finish r => some r
  | _ => none

structure Trace (P : Type) where
  /-- The heads in the order in which they were put in the avail ring. -/
  published : List Nat := []
  /-- How many of them the device has taken. -/
  taken : Nat := 0
  /-- The heads in the order in which the device has put them in the used ring. -/
  posted : List Nat := []
  /-- How many of them `virtio_disk_intr` has handled. -/
  handled : Nat := 0
  /-- Whose request a head was, at last. -/
  owner : Nat → Option P := fun _ => none
  /-- How often the device has completed the last request of a thread. -/
  completions : P → Nat := fun _ => 0
  /-- How often `virtio_disk_intr` has reset `b->disk` for it. -/
  deliveries : P → Nat := fun _ => 0

/-- One more for a thread. -/
def tally (f : P → Nat) : Option P → P → Nat
  | none => f
  | some p => update f p (f p + 1)

def note (t : Trace P) (s : State P B) (l : Action P B × Unit) : Trace P :=
  match l.1 with
  | .run p =>
    match s.pc p with
    | .publish r =>
      { t with
        published := t.published ++ [r.idx0]
        owner := update t.owner r.idx0 (some p)
        completions := update t.completions p 0
        deliveries := update t.deliveries p 0 }
    | .intrHandle =>
      { t with
        handled := t.handled + 1
        deliveries := tally t.deliveries (t.owner s.disk.nextUsed) }
    | _ => t
  | .take => { t with taken := t.taken + 1 }
  | .complete head => { t with completions := tally t.completions (t.owner head) }
  | .count => { t with posted := t.posted ++ s.device.posting.toList }
  | _ => t

def recorded (P B : Type) [DecidableEq P] [DecidableEq B] :
    Lts (State P B × Trace P) (Action P B × Unit) :=
  (system P B).observed {} note

end System

end Xv6.Virtio
