import Xv6.Vm.State

/-!
# Shared memory

`kernel/sysshm.c`. An entry of `segtable` that is not used is `none`, and so is an entry
of `attachtable` whose `shmid` is -1.
-/

namespace Xv6.Vm

open Function (update)

/-- The value of an `int` expression, which wraps at 32 bits. -/
def wrap32 (n : Int) : Int := (n + 2 ^ 31) % 2 ^ 32 - 2 ^ 31

/-- `pidslot`: the row of `attachtable`. -/
def pidslot (pid : Nat) : Option (Fin NPROC) :=
  if h : 0 < pid ∧ pid ≤ NPROC then some ⟨pid - 1, by omega⟩ else none

/-- The used entry of `segtable` with this key. -/
def State.findKey (s : State) (key : Int) : Option (Fin NSHM) :=
  (List.finRange NSHM).find? fun i => (s.segtable i).any (·.key = key)

/-- The first entry of `segtable` that is not used. -/
def State.unusedSeg (s : State) : Option (Fin NSHM) :=
  (List.finRange NSHM).find? fun i => (s.segtable i).isNone

/-- `kfree` of the pages a failing `shmget` has allocated. -/
def kfreeAll : List Nat → Kmem → Except Panic Kmem
  | [], k => .ok k
  | p :: rest, k => do
      let k ← k.kfree p
      kfreeAll rest k

/-- The allocation loop of `shmget`, with `n` pages left. If memory runs out, the pages
allocated so far are freed and the result is `none`. -/
def allocPages : Nat → List Nat → Kmem → Except Panic (Kmem × Option (List Nat))
  | 0, pages, k => .ok (k, some pages)
  | n + 1, pages, k =>
    match k.kalloc with
    | none => do
        let k ← kfreeAll pages k
        .ok (k, none)
    | some (mem, k) => allocPages n (pages ++ [mem]) (k.memset mem 0)

/-- `sys_shmget`; the result is `none` for -1. -/
def shmget (s : State) (key size : Int) : Except Panic (State × Option Nat) :=
  let npages := (wrap32 (size + (PGSIZE - 1))).tdiv PGSIZE
  if size ≤ 0 then .ok (s, none)
  else if npages > SHM_MAXPAGES then .ok (s, none)
  else
    match s.findKey key, s.unusedSeg with
    | some id, _ => .ok (s, some id)
    | none, none => .ok (s, none)
    | none, some id => do
        let (k, pages) ← allocPages npages.toNat [] s.kmem
        match pages with
        | none => .ok ({ s with kmem := k }, none)
        | some pages =>
          let seg : Shmseg := { key := key, npages := npages, refcnt := 0, pages := pages }
          .ok ({ s with kmem := k, segtable := update s.segtable id (some seg) }, some id)

/-- The mapping loop of `shmattach`, at page `vpn`, with the pages that are left. If memory
runs out, the pages mapped since `va` are unmapped again. -/
def attachPages (va : Nat) : List Nat → Nat → PageTable → Kmem →
    Except Panic (PageTable × Kmem × Bool)
  | [], _, pt, k => .ok (pt, k, true)
  | pa :: rest, vpn, pt, k => do
      let (pt, k, ok) ← mappages pt k vpn pa { r := true, w := true, u := true }
      if ok then attachPages va rest (vpn + 1) pt k
      else
        let (pt, k) ← uvmunmap pt k va (vpn - va) false
        .ok (pt, k, false)

/-- The virtual page where `shmattach` puts a segment: one guard page above the heap. -/
def attachVpn (sz : Nat) : Nat := npg sz + 1

/-- The first free record of a row of `attachtable`. -/
def State.freeRecord (s : State) (row : Fin NPROC) : Option (Fin NSHM) :=
  (List.finRange NSHM).find? fun i => (s.attachtable row i).isNone

def State.setRecord (s : State) (row : Fin NPROC) (i : Fin NSHM) (entry : Option Shmattach) :
    State :=
  { s with
    attachtable :=
      update s.attachtable row (update (s.attachtable row) i entry) }

/-- Store a record; nothing happens if the row is full. -/
def State.record (s : State) (row : Fin NPROC) (entry : Shmattach) : State :=
  match s.freeRecord row with
  | none => s
  | some i => s.setRecord row i (some entry)

/-- Count the references to a segment up or down. -/
def State.addRef (s : State) (id : Fin NSHM) (d : Int) : State :=
  { s with
    segtable :=
      update s.segtable id
        ((s.segtable id).map fun seg => { seg with refcnt := seg.refcnt + d }) }

/-- The segment with this id: `none` if the id is out of range or the segment not used. -/
def State.segOf (s : State) (shmid : Int) : Option (Fin NSHM × Shmseg) :=
  if h : 0 ≤ shmid ∧ shmid < NSHM then
    let id : Fin NSHM := ⟨shmid.toNat, by omega⟩
    (s.segtable id).map fun seg => (id, seg)
  else none

/-- `sys_shmattach`; the result is the address, or `none` for -1. The sum that is compared
with `TRAPFRAME` is a `uint64`. -/
def shmattach (s : State) (p : Slot) (shmid : Int) : Except Panic (State × Option Nat) :=
  match s.segOf shmid, pidslot (s.proc p).pid, s.image p with
  | none, _, _ => .ok (s, none)
  | some _, none, _ => .ok (s, none)
  | some _, some _, none => .error .fault
  | some (id, seg), some row, some image =>
    let vpn := attachVpn image.sz
    if ((vpn * PGSIZE : Nat) + seg.npages * PGSIZE) % 2 ^ 64 > (trapframeVpn * PGSIZE : Nat) then
      .ok (s, none)
    else do
      let (pt, k, ok) ← attachPages vpn seg.pages vpn image.pagetable image.kmem
      let s := s.setImage p { image with pagetable := pt, kmem := k }
      if ok then
        let entry : Shmattach := { shmid := id, va := vpn * PGSIZE, npages := seg.npages }
        .ok ((s.addRef id 1).record row entry, some (vpn * PGSIZE))
      else .ok (s, none)

/-- The record of an attachment at this address. -/
def State.findRecord (s : State) (row : Fin NPROC) (addr : Nat) : Option (Fin NSHM) :=
  (List.finRange NSHM).find? fun i => (s.attachtable row i).any (·.va = addr)

/-- `sys_shmdetach`; the result is `none` for -1. -/
def shmdetach (s : State) (p : Slot) (addr : Nat) : Except Panic (State × Option Nat) :=
  match pidslot (s.proc p).pid with
  | none => .ok (s, none)
  | some row =>
    match s.findRecord row addr with
    | none => .ok (s, none)
    | some i =>
      match s.attachtable row i, s.image p with
      | some entry, some image => do
          let (pt, k) ←
            uvmunmap image.pagetable image.kmem (addr / PGSIZE) entry.npages.toNat false
          let s := (s.setRecord row i none).setImage p { image with pagetable := pt, kmem := k }
          .ok (s.addRef entry.shmid (-1), some 0)
      | _, _ => .error .fault

end Xv6.Vm
