import Xv6.Lib.Linked
import Xv6.Lib.Tiling
import Xv6.Lib.Transition

/-!
# The user heap allocator

`malloc` and `free` of `user/umalloc.c`. Memory is read and written as headers: `mem a` is the
header at address `a`, and pointers are byte addresses. A header counts its block's size in units
of `sizeof(Header)`, 16 bytes, in a `uint`.

The system is a program that calls `malloc` and `free` and stores into the blocks it holds, over a
kernel whose `sbrk` gives memory above everything given before, or fails. The state keeps what the
kernel gave (`chunks`, up to `brk`) and what the program holds (`live`), neither of which the
allocator reads. Both search loops are bounded by the `fuel` of the call: a call is a step of the
system when some fuel is enough.
-/

namespace Umalloc

/-- `union header`. -/
structure Header where
  ptr : Nat
  size : Nat
deriving DecidableEq

/-- The memory of the process, by the addresses of headers. -/
structure Memory where
  header : Nat → Header

namespace Memory

variable (mem : Memory)

/-- `a->s.ptr` -/
def next (a : Nat) : Nat :=
  (mem.header a).ptr

/-- `a->s.size` -/
def size (a : Nat) : Nat :=
  (mem.header a).size

/-- `*a = header` -/
def set (a : Nat) (header : Header) : Memory :=
  { header := Function.update mem.header a header }

/-- `a->s.ptr = p` -/
def setPtr (a p : Nat) : Memory :=
  mem.set a { mem.header a with ptr := p }

/-- `a->s.size = n`, the size a `uint` -/
def setSize (a n : Nat) : Memory :=
  mem.set a { mem.header a with size := n % 2 ^ 32 }

/-- The test that ends the search of `free`: the block at `bp` lies between the nodes `p` and
`p->s.ptr`, or outside the list, which turns around at `p`. -/
def stops (bp p : Nat) : Bool :=
  (p < bp && bp < mem.next p) || (mem.next p ≤ p && (p < bp || bp < mem.next p))

/-- The first half of `free` after its search: the block at `bp` takes the pointer of `p`, or
absorbs the block that follows it. -/
def joinUpper (bp p : Nat) : Memory :=
  if bp + 16 * mem.size bp = mem.next p then
    let mem' := mem.setSize bp (mem.size bp + mem.size (mem.next p))
    mem'.setPtr bp (mem'.next (mem'.next p))
  else
    mem.setPtr bp (mem.next p)

/-- The second half: `p` points to the block at `bp`, or absorbs it. -/
def joinLower (bp p : Nat) : Memory :=
  if p + 16 * mem.size p = bp then
    let mem' := mem.setSize p (mem.size p + mem.size bp)
    mem'.setPtr p (mem'.next bp)
  else
    mem.setPtr p bp

/-- The block that `malloc` takes from the free block at `p`, found after `prevp`: all of it, or
its tail. -/
def carve (nunits prevp p : Nat) : Memory × Nat :=
  if mem.size p = nunits then
    (mem.setPtr prevp (mem.next p), p)
  else
    let mem' := mem.setSize p (mem.size p - nunits)
    let p' := p + 16 * mem'.size p
    (mem'.setSize p' nunits, p')

end Memory

structure State where
  mem : Memory
  freep : Nat
  -- The end of the memory that the kernel has given out, and the calls of `sbrk` that succeeded:
  -- address and number of units.
  brk : Nat
  chunks : List (Nat × Nat)
  -- The pointers that `malloc` returned and the program has not freed, with the bytes asked for.
  live : List (Nat × Nat)

/-- `(nbytes + sizeof(Header) - 1)/sizeof(Header) + 1` -/
def nunits (nbytes : Nat) : Nat :=
  (nbytes + 16 - 1) / 16 + 1

namespace State

def free (fuel : Nat) (s : State) (ap : Nat) : Option State :=
  let bp := ap - 16
  match Linked.search s.mem.next (s.mem.stops bp) fuel s.freep with
  | none => none
  | some p => some { s with mem := (s.mem.joinUpper bp p).joinLower bp p, freep := p }

/-- `sbrk(nu * sizeof(Header))`, where the kernel answers with an address above all memory given
before. -/
def sbrk (s : State) (nu p : Nat) : Option State :=
  if s.brk ≤ p then
    some { s with brk := p + 16 * nu, chunks := s.chunks ++ [(p, nu)] }
  else
    none

/-- `morecore`; the answer `none` is a failed `sbrk`. -/
def morecore (fuel : Nat) (s : State) (nu : Nat) (answer : Option Nat) : Option (State × Nat) :=
  let nu := if nu < 4096 then 4096 else nu
  match answer with
  | none => some (s, 0)
  | some p =>
    match s.sbrk nu p with
    | none => none
    | some s =>
      match { s with mem := s.mem.setSize p nu }.free fuel (p + 16) with
      | none => none
      | some s => some (s, s.freep)

/-- The search of `malloc`. Each call of `morecore` takes one of the kernel's answers. -/
def mallocLoop (nunits : Nat) : Nat → State → Nat → Nat → List (Option Nat) → Option (State × Nat)
  | 0, _, _, _, _ => none
  | fuel + 1, s, prevp, p, answers =>
    if nunits ≤ s.mem.size p then
      let (mem, p) := s.mem.carve nunits prevp p
      some ({ s with mem, freep := prevp }, p + 16)
    else if p = s.freep then
      match answers with
      | [] => none
      | answer :: answers =>
        match s.morecore fuel nunits answer with
        | none => none
        | some (s, p) =>
          if p = 0 then some (s, 0)
          else mallocLoop nunits fuel s p (s.mem.next p) answers
    else
      mallocLoop nunits fuel s p (s.mem.next p) answers

/-- The free list before the first search: `base` alone. -/
def start (base : Nat) (s : State) : State :=
  if s.freep = 0 then
    { s with mem := (s.mem.setPtr base base).setSize base 0, freep := base }
  else
    s

def malloc (base fuel : Nat) (s : State) (nbytes : Nat) (answers : List (Option Nat)) :
    Option (State × Nat) :=
  let s := s.start base
  mallocLoop (nunits nbytes) fuel s s.freep (s.mem.next s.freep) answers

end State

inductive Call where
  | malloc (nbytes : Nat) (answers : List (Option Nat))
  | free (ap : Nat)
  /-- A store into a block the program holds; it may change the header-sized memory at `a`. -/
  | store (a : Nat) (header : Header)
deriving DecidableEq

/-- A call that ends within `fuel` rounds of its loops. The requests are those whose size in bytes
is a positive `int`, and only live pointers are freed. -/
def exec (base : Nat) (s : State) : Call × Nat → Option (State × Nat)
  | (.malloc nbytes answers, fuel) =>
    if 16 * nunits nbytes < 2 ^ 31 then
      match s.malloc base fuel nbytes answers with
      | none => none
      | some (s, ap) =>
        some ({ s with live := if ap = 0 then s.live else (ap, nbytes) :: s.live }, ap)
    else
      none
  | (.free ap, fuel) =>
    if s.live.any fun block => block.1 == ap then
      match s.free fuel ap with
      | none => none
      | some s => some ({ s with live := s.live.eraseP fun block => block.1 == ap }, 0)
    else
      none
  | (.store a header, _) =>
    if s.live.any fun block => block.1 - 16 < a && a < block.1 + block.2 then
      some ({ s with mem := s.mem.set a header }, 0)
    else
      none

/-- The allocator before its first call, with `base` below the memory that the kernel gives. -/
def Initial (base : Nat) (s : State) : Prop :=
  0 < base ∧ base + 16 ≤ s.brk ∧ s.freep = 0 ∧ s.chunks = [] ∧ s.live = []

/-- The system of a program and its allocator. -/
def heap (base : Nat) : Lts State ((Call × Nat) × Nat) :=
  .ofExec (Initial base) (exec base)

end Umalloc
