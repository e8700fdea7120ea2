import Xv6.Vm.Space

/-!
# Loading a program

`kernel/exec.c`. The executable is the content of the inode that `namei` finds; the
argument strings are in kernel memory already, where `sys_exec` has put them. The
header fields are read at their offsets in `struct elfhdr` and `struct proghdr`
(`kernel/elf.h`).

While the new program is loaded there are two address spaces, the old one and the
new one, and one of them is taken down in the end. The rule of `kexec` is that no page comes or
goes.
-/

namespace Xv6.Vm

open Outcome Ownership

/-- `param.h`. -/
def USERSTACK : Nat := 1
def MAXARG : Nat := 32

def ELF_MAGIC : Nat := 0x464C457F
def ELF_PROG_LOAD : Nat := 1

/-- `sizeof(struct elfhdr)` and `sizeof(struct proghdr)`. -/
def sizeofElfhdr : Nat := 64
def sizeofProghdr : Nat := 56

/-- The content of an inode. `MAXFILE * BSIZE` bytes are the most that one can have. -/
structure File where
  bytes : List UInt8
  length_le : bytes.length ≤ 268 * 1024

/-- What `readi(ip, 0, …, off, n)` reads; `off` and `n` are `uint`s. -/
def File.readi (f : File) (off n : Nat) : List UInt8 :=
  if off > f.bytes.length ∨ off + n ≥ 2 ^ 32 then [] else (f.bytes.drop off).take n

/-- The little-endian number of `n` bytes at `off`. -/
def le (bytes : List UInt8) (off n : Nat) : Nat :=
  ((bytes.drop off).take n).foldr (fun byte rest => byte.toNat + 256 * rest) 0

/-- The 8 bytes of a `uint64`. -/
def bytes64 (n : Nat) : List UInt8 :=
  (List.range 8).map fun i => UInt8.ofNat (n / 256 ^ i)

/-- Store a `uint64` field of a trapframe, at its offset in `struct trapframe`. -/
def Kmem.setReg (k : Kmem) (trapframe off value : Nat) : Kmem :=
  k.store trapframe off (bytes64 value)

/-- Offsets of the trapframe's `epc`, `sp`, `a0` and `a1`. -/
def tfEpc : Nat := 24
def tfSp : Nat := 48
def tfA0 : Nat := 112
def tfA1 : Nat := 120

def flags2perm (flags : Nat) : Perm where
  x := flags.testBit 0
  w := flags.testBit 1

/-- The loop of `loadseg`, with `n` pages left, at byte `i` of the segment; false is its
result -1. -/
def loadsegFrom (pt : PageTable) (f : File) (va offset sz : Nat) :
    Nat → Nat → Kmem → Except Panic (Kmem × Bool)
  | 0, _, k => .ok (k, true)
  | n + 1, i, k =>
    match walkaddr pt ((va + i) / PGSIZE) with
    | none => .error .loadseg
    | some pa =>
      let want := min PGSIZE (sz - i)
      let got := f.readi ((offset + i) % 2 ^ 32) want
      let k := k.store pa 0 got
      if got.length = want then loadsegFrom pt f va offset sz n (i + PGSIZE) k
      else .ok (k, false)

def loadseg (pt : PageTable) (k : Kmem) (va : Nat) (f : File) (offset sz : Nat) :
    Except Panic (Kmem × Bool) :=
  loadsegFrom pt f va offset sz (npg sz) 0 k

/-- The loop of `kexec` over the program headers, with `n` left, at offset `off`; false is
its `goto bad`. -/
def loadProgram (f : File) :
    Nat → Nat → PageTable → Kmem → Nat → Except Panic (PageTable × Kmem × Nat × Bool)
  | 0, _, pt, k, sz => .ok (pt, k, sz, true)
  | n + 1, off, pt, k, sz =>
    let ph := f.readi off sizeofProghdr
    let vaddr := le ph 16 8
    let filesz := le ph 32 8
    let memsz := le ph 40 8
    if ph.length ≠ sizeofProghdr then .ok (pt, k, sz, false)
    else if le ph 0 4 ≠ ELF_PROG_LOAD then
      loadProgram f n ((off + sizeofProghdr) % 2 ^ 32) pt k sz
    else if memsz < filesz then .ok (pt, k, sz, false)
    else if (vaddr + memsz) % 2 ^ 64 < vaddr then .ok (pt, k, sz, false)
    else if vaddr % PGSIZE ≠ 0 then .ok (pt, k, sz, false)
    else do
      let (pt, k, sz1) ← uvmalloc pt k sz (vaddr + memsz) (flags2perm (le ph 4 4))
      if sz1 = 0 then .ok (pt, k, sz, false)
      else
        let (k, ok) ← loadseg pt k vaddr f (le ph 8 8 % 2 ^ 32) (filesz % 2 ^ 32)
        if ok then loadProgram f n ((off + sizeofProghdr) % 2 ^ 32) pt k sz1
        else .ok (pt, k, sz1, false)

/-- What a system call of the current process works on. -/
structure Image where
  pagetable : PageTable
  sz : Nat
  kmem : Kmem

/-- The loop of `kexec` that pushes the argument strings on the new stack. The result has
the stack pointer and the addresses of the strings, or `none` for `goto bad`. -/
def pushArgs (new : PageTable) (stackbase : Nat) :
    List (List UInt8) → Image → Nat → List Nat → Except Panic (Image × Option (Nat × List Nat))
  | [], cur, sp, ustack => .ok (cur, some (sp, ustack))
  | arg :: argv, cur, sp, ustack =>
    if ustack.length ≥ MAXARG then .ok (cur, none)
    else
      let sp := sp - (arg.length + 1)
      let sp := sp - sp % 16
      if sp < stackbase then .ok (cur, none)
      else do
        let (pt, k, ok) ← copyout (some new) cur.pagetable cur.sz cur.kmem sp (arg ++ [0])
        let cur := { cur with pagetable := pt, kmem := k }
        if ok then pushArgs new stackbase argv cur sp (ustack ++ [sp]) else .ok (cur, none)

/-- The user stack, with the argument strings and the array of pointers to them: the
second half of `kexec` up to the commit. The result has the stack pointer. -/
def pushStack (new : PageTable) (stackbase : Nat) (argv : List (List UInt8)) (cur : Image)
    (sp : Nat) : Except Panic (Image × Option Nat) := do
  let (cur, pushed) ← pushArgs new stackbase argv cur sp []
  match pushed with
  | none => .ok (cur, none)
  | some (sp, ustack) =>
    let sp := sp - (ustack.length + 1) * 8
    let sp := sp - sp % 16
    if sp < stackbase then .ok (cur, none)
    else
      let (pt, k, ok) ←
        copyout (some new) cur.pagetable cur.sz cur.kmem sp ((ustack ++ [0]).flatMap bytes64)
      .ok ({ cur with pagetable := pt, kmem := k }, if ok then some sp else none)

/-- `goto bad` with a page table of `sz` bytes. -/
def execBad (new : PageTable) (sz : Nat) (cur : Image) : Except Panic (Image × Bool) := do
  let k ← procFreepagetable new cur.kmem sz
  .ok ({ cur with kmem := k }, false)

/-- `kexec` from the allocation of the stack on. -/
def execStack (trapframe entry : Nat) (argv : List (List UInt8)) (new : PageTable) (sz : Nat)
    (cur : Image) : Except Panic (Image × Bool) := do
  let base := npg sz * PGSIZE
  let (new, k, sz1) ← uvmalloc new cur.kmem base (base + (USERSTACK + 1) * PGSIZE) { w := true }
  if sz1 = 0 then execBad new base { cur with kmem := k }
  else
    let new ← uvmclear new (sz1 / PGSIZE - (USERSTACK + 1))
    let (cur, pushed) ←
      pushStack new (sz1 - USERSTACK * PGSIZE) argv { cur with kmem := k } sz1
    match pushed with
    | none => execBad new sz1 cur
    | some sp =>
      -- commit to the user image
      let k := ((cur.kmem.setReg trapframe tfA1 sp).setReg trapframe tfEpc entry).setReg
        trapframe tfSp sp
      let k ← procFreepagetable cur.pagetable k cur.sz
      .ok ({ pagetable := new, sz := sz1, kmem := k }, true)

/-- `kexec`, with the content of the file that `path` names (`none` if there is none) and the
physical pages of the trampoline and of the process's trapframe. The result has the
image of the process afterwards, and whether `kexec` has replaced it. -/
def kexec (trampoline trapframe : Nat) (file : Option File) (argv : List (List UInt8))
    (cur : Image) : Except Panic (Image × Bool) :=
  match file with
  | none => .ok (cur, false)
  | some f =>
    let elf := f.readi 0 sizeofElfhdr
    if elf.length ≠ sizeofElfhdr then .ok (cur, false)
    else if le elf 0 4 ≠ ELF_MAGIC then .ok (cur, false)
    else do
      let (made, k) ← procPagetable trampoline trapframe cur.kmem
      match made with
      | none => .ok ({ cur with kmem := k }, false)
      | some new =>
        let (new, k, sz, ok) ← loadProgram f (le elf 56 2) (le elf 32 8 % 2 ^ 32) new k 0
        if ok then execStack trapframe (le elf 24 8) argv new sz { cur with kmem := k }
        else execBad new sz { cur with kmem := k }

/-! ## Images -/

/-- The page table maps the user memory, the trampoline and the trapframe, and nothing else. -/
def Image.Plain (image : Image) : Prop :=
  Shape image.pagetable.lookup (npg image.sz) (fun _ => False) fun _ => False

/-- The pages of an image without the free ones. -/
def Image.held (image : Image) : Multiset Nat :=
  image.pagetable.pages + userPages image.pagetable.lookup (npg image.sz)

/-- The pages of an image, and the free ones. -/
def Image.stock (image : Image) : Multiset Nat :=
  Vm.stock image.kmem image.pagetable (npg image.sz)

/-- What was mapped still is, and above the heap nothing is new. -/
structure Image.Kept (cur cur' : Image) : Prop where
  sz : cur'.sz = cur.sz
  leaf : ∀ v, cur'.pagetable.lookup v = cur.pagetable.lookup v ∨
    v < npg cur.sz ∧ cur.pagetable.lookup v = none

/-- Pages of the image have been faulted in. -/
structure Image.Touched (cur cur' : Image) : Prop extends cur.Kept cur' where
  stock : cur'.stock = cur.stock

section Rules

variable {cur cur' : Image}

theorem Image.stock_eq (image : Image) : image.stock = image.kmem.free + image.held :=
  add_assoc _ _ _

theorem Image.Kept.trans (one : cur.Kept cur') (two : cur'.Kept cur'') : cur.Kept cur'' := by
  refine ⟨two.sz.trans one.sz, fun v => ?_⟩
  rcases one.leaf v with same | new
  · rw [← same, ← one.sz]
    exact two.leaf v
  · exact .inr new

theorem Image.Touched.refl (cur : Image) : cur.Touched cur := ⟨⟨rfl, fun _ => .inl rfl⟩, rfl⟩

theorem Image.Touched.trans (one : cur.Touched cur') (two : cur'.Touched cur'') :
    cur.Touched cur'' :=
  ⟨one.toKept.trans two.toKept, two.stock.trans one.stock⟩

theorem Image.Kept.high (kept : cur.Kept cur') (high : npg cur.sz ≤ v) :
    cur'.pagetable.lookup v = cur.pagetable.lookup v :=
  (kept.leaf v).resolve_right (by omega)

theorem Image.Kept.leftover (kept : cur.Kept cur')
    (left : Leftover cur'.pagetable.lookup (npg cur'.sz)) :
    Leftover cur.pagetable.lookup (npg cur.sz) := by
  obtain ⟨v, pte, high, notTrapframe, notTrampoline, mapped⟩ := left
  rw [kept.sz] at high
  rw [kept.high high] at mapped
  exact ⟨v, pte, high, notTrapframe, notTrampoline, mapped⟩

/-- `copyout` to the memory of an image, or with its help to another page table. -/
theorem copyout_ends (other : Option PageTable) (cur : Image) (dstva : Nat) (src : List UInt8) :
    Ends (· ≠ .freewalkLeaf)
      (fun (pt', k', _) => cur.Touched { cur with pagetable := pt', kmem := k' } ∧
        (Ready (other.getD cur.pagetable).lookup cur.sz dstva src.length →
          pt' = cur.pagetable ∧ k'.free = cur.kmem.free))
      (copyout other cur.pagetable cur.sz cur.kmem dstva src) :=
  (copyoutFrom_ends other src.length cur.pagetable cur.kmem dstva src).imp
    fun _ ⟨faulted, still⟩ => ⟨⟨⟨rfl, faulted.kept⟩, faulted.pages⟩, still⟩

/-! ## The rules of `kexec` -/

theorem loadsegFrom_ends (pt : PageTable) (f : File) (va offset sz n : Nat) :
    ∀ (i : Nat) (k : Kmem), Ends (· ≠ .freewalkLeaf) (fun (k', _) => k'.free = k.free)
      (loadsegFrom pt f va offset sz n i k) := by
  induction n with
  | zero =>
    intro i k
    exact .ok rfl
  | succ n rest =>
    intro i k
    unfold loadsegFrom
    split
    · exact .error (by decide)
    rename_i pa _
    dsimp only
    split
    · exact rest (i + PGSIZE) (k.store pa 0 _)
    · exact .ok rfl

theorem uvmalloc_plain (pt : PageTable) (k : Kmem)
    (shape : Shape pt.lookup (npg oldsz) (fun _ => False) fun _ => False) (newsz : Nat)
    (xperm : Perm) :
    Ends (· ≠ .freewalkLeaf)
      (fun (pt', k', sz) =>
        sz = max oldsz newsz ∧ stock k' pt' (npg sz) = stock k pt (npg oldsz) ∧
            Shape pt'.lookup (npg sz) (fun _ => False) (fun _ => False) ∨
          sz = 0 ∧ stock k' pt' (npg oldsz) = stock k pt (npg oldsz) ∧
            Shape pt'.lookup (npg oldsz) (fun _ => False) fun _ => False)
      (uvmalloc pt k oldsz newsz xperm) := by
  refine (uvmalloc_ends pt k (Nat.le_trans shape.top_le (by decide)) newsz xperm).mono ?_ ?_
  · rintro e (⟨rfl, _⟩ | ⟨_, _, _, ⟨rfl, _⟩ | ⟨rfl, _⟩⟩) <;> decide
  rintro ⟨pt', k', sz⟩ (⟨same, drew, laid⟩ | ⟨failed, moved, leaf⟩)
  · exact .inl ⟨same, drew.pages, shape.fill laid (npg_mono (by omega))⟩
  · rw [← leaf] at shape
    exact .inr ⟨failed, moved.pages, shape⟩

theorem loadProgram_ends (f : File) (n : Nat) :
    ∀ (off : Nat) (new : PageTable) (k : Kmem) (sz : Nat),
    Shape new.lookup (npg sz) (fun _ => False) (fun _ => False) →
    Ends (· ≠ .freewalkLeaf)
      (fun (new', k', sz', _) => stock k' new' (npg sz') = stock k new (npg sz) ∧
        Shape new'.lookup (npg sz') (fun _ => False) fun _ => False)
      (loadProgram f n off new k sz) := by
  induction n with
  | zero =>
    intro off new k sz shape
    exact .ok ⟨rfl, shape⟩
  | succ n rest =>
    intro off new k sz shape
    unfold loadProgram
    dsimp only
    split
    · exact .ok ⟨rfl, shape⟩
    split
    · exact rest _ new k sz shape
    split
    · exact .ok ⟨rfl, shape⟩
    split
    · exact .ok ⟨rfl, shape⟩
    split
    · exact .ok ⟨rfl, shape⟩
    refine (uvmalloc_plain new k shape _ _).bind ?_
    intro ⟨new', k', sz1⟩ grown
    dsimp only
    split
    · next failed =>
      -- the loop ends with the size from before the failure
      rcases grown with ⟨same, grown⟩ | ⟨_, kept⟩
      · rw [failed, ← show sz = 0 by omega] at grown
        exact .ok grown
      · exact .ok kept
    · next grew =>
      obtain ⟨pages, shape'⟩ := (grown.resolve_right fun failed => grew failed.1).2
      refine (loadsegFrom_ends _ f _ _ _ _ 0 k').bind ?_
      intro ⟨k'', ok⟩ sameFree
      have pages' : stock k'' new' (npg sz1) = stock k new (npg sz) := by
        rw [← pages]
        unfold stock
        rw [sameFree]
      split
      · rw [← pages']
        exact rest _ new' k'' sz1 shape'
      · exact .ok ⟨pages', shape'⟩

theorem pushArgs_ends (new : PageTable) (stackbase : Nat) (argv : List (List UInt8)) :
    ∀ (cur : Image) (sp : Nat) (ustack : List Nat),
    Ends (· ≠ .freewalkLeaf) (fun (cur', _) => cur.Touched cur')
      (pushArgs new stackbase argv cur sp ustack) := by
  induction argv with
  | nil =>
    intro cur sp ustack
    exact .ok (.refl cur)
  | cons arg argv rest =>
    intro cur sp ustack
    unfold pushArgs
    dsimp only
    split
    · exact .ok (.refl cur)
    split
    · exact .ok (.refl cur)
    refine (copyout_ends (some new) cur _ _).bind ?_
    intro ⟨pt', k', ok⟩ ⟨touched, _⟩
    split
    · exact (rest _ _ _).imp fun _ touched' => touched.trans touched'
    · exact .ok touched

theorem pushStack_ends (cur : Image) (new : PageTable) (stackbase : Nat) (argv : List (List UInt8))
    (sp : Nat) :
    Ends (· ≠ .freewalkLeaf) (fun (cur', _) => cur.Touched cur')
      (pushStack new stackbase argv cur sp) := by
  refine (pushArgs_ends new stackbase argv cur sp []).bind ?_
  intro ⟨cur', pushed⟩ touched
  dsimp only
  split
  · exact .ok touched
  split
  · exact .ok touched
  · refine (copyout_ends (some new) cur' _ _).bind ?_
    intro ⟨pt', k', ok⟩ ⟨touched', _⟩
    exact .ok (touched.trans touched')

theorem execBad_ends (cur : Image)
    (shape : Shape new.lookup (npg sz) (fun _ => False) fun _ => False) :
    Ends (· ≠ .freewalkLeaf)
      (fun (cur', ok) => cur'.stock = stock cur.kmem new (npg sz) + cur.held ∧ ok = false ∧
        cur'.pagetable = cur.pagetable ∧ cur'.sz = cur.sz)
      (execBad new sz cur) := by
  refine ((procFreepagetable_ends new cur.kmem shape.top_le).errors ?_).bind ?_
  · rintro e (⟨rfl, _⟩ | ⟨_, left⟩)
    · decide
    · obtain ⟨_, none⟩ := shape.leftover left
      exact none.elim
  · intro k' freed
    refine .ok ⟨?_, rfl, rfl, rfl⟩
    rw [Image.stock_eq, freed.free, stock]
    abel

theorem execStack_ends (cur : Image) (trapframe entry : Nat) (argv : List (List UInt8))
    (fits : npg cur.sz ≤ trapframeVpn)
    (shape : Shape new.lookup (npg sz) (fun _ => False) fun _ => False) :
    Ends (fun e => e = .freewalkLeaf → Leftover cur.pagetable.lookup (npg cur.sz))
      (fun (cur', ok) => cur'.stock = stock cur.kmem new (npg sz) + cur.held ∧
        if ok then cur'.Plain else cur.Kept cur')
      (execStack trapframe entry argv new sz cur) := by
  have noLeaf (e : Panic) (ne : e ≠ .freewalkLeaf) :
      e = .freewalkLeaf → Leftover cur.pagetable.lookup (npg cur.sz) := fun same => absurd same ne
  -- the old address space is left, with a page table and a size as in `cur1`
  have bad {cur1 cur2 : Image} (kept : cur.Kept cur1) {ok : Bool}
      (failed : ok = false ∧ cur2.pagetable = cur1.pagetable ∧ cur2.sz = cur1.sz) :
      if ok then cur2.Plain else cur.Kept cur2 := by
    obtain ⟨rfl, table, size⟩ := failed
    exact ⟨size.trans kept.sz, fun v => table ▸ kept.leaf v⟩
  have atBase : npg (npg sz * PGSIZE) = npg sz := npg_mul _
  rw [← atBase] at shape
  refine ((uvmalloc_plain new cur.kmem shape _ _).errors noLeaf).bind ?_
  intro ⟨new1, k1, sz1⟩ grown
  rw [atBase] at grown
  have start : cur.Kept { cur with kmem := k1 } := ⟨rfl, fun _ => .inl rfl⟩
  dsimp only
  split
  · next failed =>
    obtain ⟨_, pages, shape1⟩ := grown.resolve_left fun grew => by
      unfold USERSTACK PGSIZE at grew
      omega
    rw [← atBase] at shape1
    have undone := execBad_ends { cur with kmem := k1 } shape1
    rw [atBase, pages] at undone
    exact undone.mono noLeaf fun _ ⟨pages, failed⟩ => ⟨pages, bad start failed⟩
  · next grew =>
    obtain ⟨same, pages, shape1⟩ := grown.resolve_right fun failed => grew failed.1
    have guard : sz1 / PGSIZE - (USERSTACK + 1) < npg sz1 := by
      unfold npg PGSIZE
      omega
    refine ((uvmclear_ends k1 guard).errors noLeaf).bind ?_
    intro new2 ⟨pages2, leaf2⟩
    have shape2 := shape1.below shape1.top_le le_rfl fun v high => leaf2 v (by omega)
    refine ((pushStack_ends { cur with kmem := k1 } new2 _ argv sz1).errors noLeaf).bind ?_
    intro ⟨cur', pushed⟩ touched
    -- what the stack has taken comes from the free list of the old image
    have total : stock cur'.kmem new2 (npg sz1) + cur'.held =
        stock cur.kmem new (npg sz) + cur.held := by
      have moved := touched.stock
      rw [Image.stock_eq, Image.stock_eq] at moved
      have swap (a b c d : Multiset Nat) : a + b + c + d = a + d + (b + c) := by abel
      rw [← pages, ← pages2]
      unfold stock
      rw [swap, swap _ _ _ cur.held]
      exact congrArg (· + _) moved
    have kept := start.trans touched.toKept
    dsimp only
    split
    · rw [← total]
      exact (execBad_ends cur' shape2).mono noLeaf
        fun _ ⟨pages, failed⟩ => ⟨pages, bad kept failed⟩
    rename_i sp
    refine ((procFreepagetable_ends cur'.pagetable _ (by rw [kept.sz]; exact fits)).errors
      ?_).bind ?_
    · rintro e (⟨rfl, _⟩ | ⟨_, left⟩)
      · exact noLeaf _ (by decide)
      · exact fun _ => kept.leftover left
    intro k3 freed
    refine .ok ⟨?_, shape2⟩
    rw [← total, Image.stock_eq, freed.free]
    have same (k : Kmem) : (((k.setReg trapframe tfA1 sp).setReg trapframe tfEpc entry).setReg
      trapframe tfSp sp).free = k.free := rfl
    rw [same]
    dsimp only [Image.held, stock]
    abel

/-- **`kexec` moves pages**, and leaves the process with a new address space, or with the old one,
of which pages may have been faulted in. It panics with "freewalk: leaf" only if something is mapped
besides the heap. -/
theorem kexec_ends (cur : Image) (trampoline trapframe : Nat) (file : Option File)
    (argv : List (List UInt8)) (fits : npg cur.sz ≤ trapframeVpn) :
    Ends (fun e => e = .freewalkLeaf → Leftover cur.pagetable.lookup (npg cur.sz))
      (fun (cur', ok) => cur'.stock = cur.stock ∧ if ok then cur'.Plain else cur.Kept cur')
      (kexec trampoline trapframe file argv cur) := by
  have noLeaf (e : Panic) (ne : e ≠ .freewalkLeaf) :
      e = .freewalkLeaf → Leftover cur.pagetable.lookup (npg cur.sz) := fun same => absurd same ne
  have kept (k : Kmem) : cur.Kept { cur with kmem := k } := ⟨rfl, fun _ => .inl rfl⟩
  unfold kexec
  split
  · exact .ok ⟨rfl, kept _⟩
  dsimp only
  split
  · exact .ok ⟨rfl, kept _⟩
  split
  · exact .ok ⟨rfl, kept _⟩
  refine ((procPagetable_ends trampoline trapframe cur.kmem).errors ?_).bind ?_
  · rintro e ⟨rfl, _⟩
    exact noLeaf _ (by decide)
  intro ⟨made, k⟩ ⟨sum, _, leaf⟩
  cases made with
  | none =>
    refine .ok ⟨?_, kept k⟩
    rw [Image.stock_eq, Image.stock_eq, ← sum]
    exact congrArg (· + _) (add_zero _).symm
  | some new =>
    have shape : Shape new.lookup (npg 0) (fun _ => False) fun _ => False := by
      rw [leaf new rfl, npg_zero]
      exact .new trampoline trapframe
    have start : stock k new (npg 0) = cur.kmem.free := by
      rw [← sum]
      exact add_zero _
    refine ((loadProgram_ends _ _ _ new k 0 shape).errors noLeaf).bind ?_
    intro ⟨new', k', sz, ok⟩ ⟨pages, shape'⟩
    have total : stock k' new' (npg sz) + cur.held = cur.stock := by
      rw [pages, start, Image.stock_eq]
    rw [← total]
    split
    · refine (execStack_ends { cur with kmem := k' } trapframe _ argv fits shape').imp ?_
      intro ⟨cur', ok⟩ ⟨pages, done⟩
      refine ⟨pages, ?_⟩
      cases ok with
      | true => exact done
      | false => exact (kept k').trans done
    · refine (execBad_ends { cur with kmem := k' } shape').mono noLeaf ?_
      rintro ⟨cur', ok⟩ ⟨pages, rfl, table, size⟩
      exact ⟨pages, size, fun v => .inl (by rw [table])⟩

end Rules

end Xv6.Vm
