import Xv6.Vm.PageTable

/-!
# User memory

The functions of `kernel/vm.c` that build, copy and take down the memory of a
process, and those of `kernel/proc.c` that make and free its page table. A loop
of the source over the addresses `va, va + PGSIZE, …` is a recursion on the
number of pages that are left.

A function that reads `myproc()` takes the current process's page table `cur`
and size `sz`. `copyout` and `vmfault` are called with a page table of their own,
which is that of the current process except in `kexec`.
-/

namespace Xv6.Vm

/-- `PGROUNDUP(sz) / PGSIZE`, the number of pages that `sz` bytes reach. -/
def npg (sz : Nat) : Nat := (sz + (PGSIZE - 1)) / PGSIZE

/-- `memmove` of a few bytes into page `p`, from offset `off` on. -/
def Kmem.store (k : Kmem) (p off : Nat) (src : List UInt8) : Kmem :=
  { k with mem := Function.update k.mem p fun i =>
      if off ≤ i.val then src.getD (i.val - off) (k.mem p i) else k.mem p i }

/-- `memmove` of a whole page. -/
def Kmem.copyPage (k : Kmem) (dst src : Nat) : Kmem :=
  { k with mem := Function.update k.mem dst (k.mem src) }

/-! ## Growing and shrinking -/

def uvmdealloc (pt : PageTable) (k : Kmem) (oldsz newsz : Nat) :
    Except Panic (PageTable × Kmem × Nat) :=
  if newsz ≥ oldsz then .ok (pt, k, oldsz)
  else do
    let (pt, k) ← uvmunmap pt k (npg newsz) (npg oldsz - npg newsz) true
    .ok (pt, k, newsz)

/-- The loop of `uvmalloc`, with `n` pages left to allocate from page `a` on. -/
def uvmallocFrom (base newsz : Nat) (perm : Perm) :
    Nat → Nat → PageTable → Kmem → Except Panic (PageTable × Kmem × Nat)
  | 0, _, pt, k => .ok (pt, k, newsz)
  | n + 1, a, pt, k =>
    match k.kalloc with
    | none => do
        let (pt, k, _) ← uvmdealloc pt k (a * PGSIZE) (base * PGSIZE)
        .ok (pt, k, 0)
    | some (mem, k) => do
        let (pt, k, ok) ← mappages pt (k.memset mem 0) a mem perm
        if ok then uvmallocFrom base newsz perm n (a + 1) pt k
        else
          let k ← k.kfree mem
          let (pt, k, _) ← uvmdealloc pt k (a * PGSIZE) (base * PGSIZE)
          .ok (pt, k, 0)

/-- `uvmalloc`; the result is the new size, 0 on failure. -/
def uvmalloc (pt : PageTable) (k : Kmem) (oldsz newsz : Nat) (xperm : Perm) :
    Except Panic (PageTable × Kmem × Nat) :=
  if newsz < oldsz then .ok (pt, k, oldsz)
  else
    uvmallocFrom (npg oldsz) newsz { xperm with r := true, u := true }
      (npg newsz - npg oldsz) (npg oldsz) pt k

/-- `if(sz > 0) uvmunmap(pagetable, 0, PGROUNDUP(sz)/PGSIZE, do_free)`. -/
def unmapUser (pt : PageTable) (k : Kmem) (sz : Nat) (doFree : Bool) :
    Except Panic (PageTable × Kmem) :=
  if sz > 0 then uvmunmap pt k 0 (npg sz) doFree else .ok (pt, k)

def uvmfree (pt : PageTable) (k : Kmem) (sz : Nat) : Except Panic Kmem := do
  let (pt, k) ← unmapUser pt k sz true
  freewalk pt k

/-! ## Copying and sharing -/

/-- The loop of `uvmcopy`, with `n` pages left to copy from page `i` on. -/
def uvmcopyFrom (old : PageTable) :
    Nat → Nat → PageTable → Kmem → Except Panic (PageTable × Kmem × Bool)
  | 0, _, new, k => .ok (new, k, true)
  | n + 1, i, new, k =>
    if i ≥ MAXVPN then .error .walk
    else
      match old.lookup i with
      | none => uvmcopyFrom old n (i + 1) new k
      | some pte =>
        match k.kalloc with
        | none => do
            let (new, k) ← uvmunmap new k 0 i true
            .ok (new, k, false)
        | some (mem, k) => do
            let (new, k, ok) ← mappages new (k.copyPage mem pte.ppn) i mem pte.perm
            if ok then uvmcopyFrom old n (i + 1) new k
            else
              let k ← k.kfree mem
              let (new, k) ← uvmunmap new k 0 i true
              .ok (new, k, false)

def uvmcopy (old new : PageTable) (k : Kmem) (sz : Nat) : Except Panic (PageTable × Kmem × Bool) :=
  uvmcopyFrom old (npg sz) 0 new k

/-- The loop of `uvmshare`, with `n` pages left to share from page `i` on. -/
def uvmshareFrom (old : PageTable) :
    Nat → Nat → PageTable → Kmem → Except Panic (PageTable × Kmem × Bool)
  | 0, _, new, k => .ok (new, k, true)
  | n + 1, i, new, k =>
    if i ≥ MAXVPN then .error .walk
    else
      match old.lookup i with
      | none => uvmshareFrom old n (i + 1) new k
      | some pte => do
          let (new, k, ok) ← mappages new k i pte.ppn pte.perm
          if ok then uvmshareFrom old n (i + 1) new k
          else
            let (new, k) ← uvmunmap new k 0 i false
            .ok (new, k, false)

def uvmshare (old new : PageTable) (k : Kmem) (sz : Nat) :
    Except Panic (PageTable × Kmem × Bool) :=
  uvmshareFrom old (npg sz) 0 new k

/-- `uvmclear`: an entry that is not valid stays so. -/
def uvmclear (pt : PageTable) (vpn : Nat) : Except Panic PageTable :=
  if vpn ≥ MAXVPN then .error .walk
  else
    match pt.low vpn with
    | none => .error .uvmclear
    | some low =>
      match low.entry (px 0 vpn) with
      | none => .ok pt
      | some pte => .ok (pt.setLeaf vpn (some { pte with perm := { pte.perm with u := false } }))

/-! ## Access from the kernel -/

/-- `walkaddr`: the physical page of a user page. -/
def walkaddr (pt : PageTable) (vpn : Nat) : Option Nat :=
  if vpn ≥ MAXVPN then none
  else (pt.lookup vpn).bind fun pte => if pte.perm.u then some pte.ppn else none

/-- `vmfault(pagetable, va, …)`: whether the page is mapped is looked up in `pagetable`,
and the new page is mapped in `cur`. -/
def vmfault (pagetable cur : PageTable) (sz : Nat) (k : Kmem) (va : Nat) :
    Except Panic (PageTable × Kmem × Option Nat) :=
  if va ≥ sz then .ok (cur, k, none)
  else if va / PGSIZE ≥ MAXVPN then .error .walk
  else if (pagetable.lookup (va / PGSIZE)).isSome then .ok (cur, k, none)
  else
    match k.kalloc with
    | none => .ok (cur, k, none)
    | some (mem, k) => do
        let (cur, k, ok) ←
          mappages cur (k.memset mem 0) (va / PGSIZE) mem { r := true, w := true, u := true }
        if ok then .ok (cur, k, some mem)
        else
          let k ← k.kfree mem
          .ok (cur, k, none)

/-- The physical page `copyout` writes to: it faults the page in, if it is not there. -/
def copyoutPage (pagetable cur : PageTable) (sz : Nat) (k : Kmem) (vpn : Nat) :
    Except Panic (PageTable × Kmem × Option Nat) :=
  match walkaddr pagetable vpn with
  | some pa => .ok (cur, k, some pa)
  | none => vmfault pagetable cur sz k (vpn * PGSIZE)

/-- The loop of `copyout`. `other` is the page table it is called with, if that is not
the current process's. Every pass copies at least one byte, so that `src.length` passes
are enough. -/
def copyoutFrom (other : Option PageTable) (sz : Nat) :
    Nat → PageTable → Kmem → Nat → List UInt8 → Except Panic (PageTable × Kmem × Bool)
  | 0, cur, k, _, _ => .ok (cur, k, true)
  | passes + 1, cur, k, dstva, src =>
    if src = [] then .ok (cur, k, true)
    else if dstva / PGSIZE ≥ MAXVPN then .ok (cur, k, false)
    else do
      let vpn := dstva / PGSIZE
      let (cur, k, pa) ← copyoutPage (other.getD cur) cur sz k vpn
      match pa, (other.getD cur).low vpn with
      | none, _ => .ok (cur, k, false)
      | some _, none => .error .fault
      | some pa, some low =>
        if (low.entry (px 0 vpn)).any (·.perm.w) then
          copyoutFrom other sz passes cur
            (k.store pa (dstva % PGSIZE) (src.take (PGSIZE - dstva % PGSIZE)))
            ((vpn + 1) * PGSIZE) (src.drop (PGSIZE - dstva % PGSIZE))
        else .ok (cur, k, false)

def copyout (other : Option PageTable) (cur : PageTable) (sz : Nat) (k : Kmem) (dstva : Nat)
    (src : List UInt8) : Except Panic (PageTable × Kmem × Bool) :=
  copyoutFrom other sz src.length cur k dstva src

/-! ## The page table of a process -/

/-- `proc_pagetable`, with the physical pages of the trampoline and of the trapframe. -/
def procPagetable (trampoline trapframe : Nat) (k : Kmem) :
    Except Panic (Option PageTable × Kmem) :=
  match k.kalloc with
  | none => .ok (none, k)
  | some (page, k) => do
      let (pt, k, ok) ←
        mappages (Table.empty page) (k.memset page 0) trampolineVpn trampoline
          { r := true, x := true }
      if !ok then
        let k ← uvmfree pt k 0
        .ok (none, k)
      else
        let (pt, k, ok) ← mappages pt k trapframeVpn trapframe { r := true, w := true }
        if !ok then
          let (pt, k) ← uvmunmap pt k trampolineVpn 1 false
          let k ← uvmfree pt k 0
          .ok (none, k)
        else .ok (some pt, k)

/-- `proc_freepagetable`. -/
def procFreepagetable (pt : PageTable) (k : Kmem) (sz : Nat) : Except Panic Kmem := do
  let (pt, k) ← uvmunmap pt k trampolineVpn 1 false
  let (pt, k) ← uvmunmap pt k trapframeVpn 1 false
  uvmfree pt k sz

/-- `proc_freepagetable_thread`: the user pages are unmapped and not freed. -/
def procFreepagetableThread (pt : PageTable) (k : Kmem) (sz : Nat) : Except Panic Kmem := do
  let (pt, k) ← uvmunmap pt k trampolineVpn 1 false
  let (pt, k) ← uvmunmap pt k trapframeVpn 1 false
  let (pt, k) ← unmapUser pt k sz false
  freewalk pt k

end Xv6.Vm
