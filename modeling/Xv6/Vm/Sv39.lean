import Xv6.Lib.Radix
import Xv6.Lib.Transition
import Xv6.Vm.PageTable

/-!
# Page tables in memory

`walk`, `mappages`, `uvmunmap` and `uvmclear` of `kernel/vm.c` once more, on the 64-bit words
of physical memory: with the shifts and masks of `kernel/riscv.h`, and with page tables that
are found by their addresses. `PageTable` has the same operations on trees, in which two
tables cannot have one page and a leaf entry has a place of its own. Here both are to be
proved.

A page table is a radix tree of three levels (`Radix`). What counts of it is `lookup`, the map
from virtual pages to physical ones and their flags.
-/

namespace Xv6.Vm.Sv39

open Ownership (Owned)
open Function
open Option (bind_some map_eq_some_iff)
open BitVec (eq_of_toNat_eq toNat_add toNat_and toNat_mul toNat_ofNat toNat_setWidth
  toNat_ushiftRight)

/-- The texts that the code panics with: "walk", "mappages: va not aligned", "mappages: size not
aligned", "mappages: size", "mappages: remap", "uvmunmap: not aligned", "uvmclear" and "kfree". -/
inductive Panic
  | walk | mapVa | mapSizeAligned | mapSize | remap | unmapVa | uvmclear | kfree
  deriving DecidableEq

abbrev Word := BitVec 64

abbrev Flags := BitVec 10

def PTE_V : Word := 1 <<< 0
def PTE_U : Word := 1 <<< 4

def PA2PTE (pa : Word) : Word := (pa >>> 12) <<< 10
def PTE2PA (pte : Word) : Word := (pte >>> 10) <<< 12
def PTE_FLAGS (pte : Word) : Word := pte &&& 0x3FF

def PXSHIFT (level : Nat) : Nat := 12 + 9 * level
def PX (level : Nat) (va : Word) : Word := (va >>> PXSHIFT level) &&& 0x1FF

def MAXVA : Word := 1 <<< 38

def pgsize : Word := BitVec.ofNat 64 PGSIZE

/-- The words of physical memory by their addresses, `kmem.freelist`, and `end`. -/
structure Heap where
  mem : Word → Word
  free : List Word
  first : Word

def Heap.store (h : Heap) (a v : Word) : Heap := { h with mem := update h.mem a v }

/-- `memset(page, _, PGSIZE)`, which makes all words of the page the same. -/
def Heap.memset (h : Heap) (page v : Word) : Heap :=
  { h with mem := fun a => if a.toNat / PGSIZE = page.toNat / PGSIZE then v else h.mem a }

def Heap.kalloc (h : Heap) : Option (Word × Heap) :=
  match h.free with
  | [] => none
  | page :: rest => some (page, { h with free := rest }.memset page 0x0505050505050505)

def Heap.kfree (h : Heap) (pa : Word) : Except Panic Heap :=
  if pa.toNat % PGSIZE ≠ 0 ∨ pa < h.first ∨ PHYSTOP * PGSIZE ≤ pa.toNat then .error .kfree
  else .ok { h.memset pa 0x0101010101010101 with free := pa :: h.free }

/-- `&pagetable[i]`. -/
def entry (pagetable i : Word) : Word := pagetable + 8 * i

/-- One iteration of the loop of `walk`: the table below the one at `pagetable`. -/
def down (h : Heap) (pagetable : Word) (level : Nat) (va : Word) (alloc : Bool) :
    Option Word × Heap :=
  let pte := entry pagetable (PX level va)
  if h.mem pte &&& PTE_V ≠ 0 then (some (PTE2PA (h.mem pte)), h)
  else if !alloc then (none, h)
  else
    match h.kalloc with
    | none => (none, h)
    | some (page, h) => (some page, (h.memset page 0).store pte (PA2PTE page ||| PTE_V))

/-- `walk`: the address of the leaf entry. -/
def walk (h : Heap) (pagetable va : Word) (alloc : Bool) : Except Panic (Option Word × Heap) :=
  if MAXVA ≤ va then .error .walk
  else
    match down h pagetable 2 va alloc with
    | (none, h) => .ok (none, h)
    | (some mid, h) =>
      match down h mid 1 va alloc with
      | (none, h) => .ok (none, h)
      | (some low, h) => .ok (some (entry low (PX 0 va)), h)

/-- The loop of `mappages`, with a bound on the number of its iterations; the result is false for
-1. -/
def mapLoop (pagetable last : Word) (perm : Flags) :
    Nat → Heap → Word → Word → Except Panic (Bool × Heap)
  | 0, h, _, _ => .ok (true, h)
  | n + 1, h, a, pa =>
    match walk h pagetable a true with
    | .error e => .error e
    | .ok (none, h) => .ok (false, h)
    | .ok (some pte, h) =>
      if h.mem pte &&& PTE_V ≠ 0 then .error .remap
      else
        let h := h.store pte (PA2PTE pa ||| perm.setWidth 64 ||| PTE_V)
        if a = last then .ok (true, h)
        else mapLoop pagetable last perm n h (a + pgsize) (pa + pgsize)

def mappages (h : Heap) (pagetable va size pa : Word) (perm : Flags) : Except Panic (Bool × Heap) :=
  if va.toNat % PGSIZE ≠ 0 then .error .mapVa
  else if size.toNat % PGSIZE ≠ 0 then .error .mapSizeAligned
  else if size = 0 then .error .mapSize
  else mapLoop pagetable (va + size - pgsize) perm (size.toNat / PGSIZE) h va pa

/-- The loop of `uvmunmap`, with a bound on the number of its iterations. -/
def unmapLoop (pagetable bound : Word) (doFree : Bool) : Nat → Heap → Word → Except Panic Heap
  | 0, h, _ => .ok h
  | n + 1, h, a =>
    if a < bound then
      match walk h pagetable a false with
      | .error e => .error e
      | .ok (none, h) => unmapLoop pagetable bound doFree n h (a + pgsize)
      | .ok (some pte, h) =>
        if h.mem pte &&& PTE_V = 0 then unmapLoop pagetable bound doFree n h (a + pgsize)
        else do
          let h' ← if doFree then h.kfree (PTE2PA (h.mem pte)) else .ok h
          unmapLoop pagetable bound doFree n (h'.store pte 0) (a + pgsize)
    else .ok h

def uvmunmap (h : Heap) (pagetable va npages : Word) (doFree : Bool) : Except Panic Heap :=
  if va.toNat % PGSIZE ≠ 0 then .error .unmapVa
  else unmapLoop pagetable (va + npages * pgsize) doFree npages.toNat h va

def uvmclear (h : Heap) (pagetable va : Word) : Except Panic Heap :=
  match walk h pagetable va false with
  | .error e => .error e
  | .ok (none, _) => .error .uvmclear
  | .ok (some pte, h) => .ok (h.store pte (h.mem pte &&& ~~~PTE_U))

def uvmcreate (h : Heap) : Option (Word × Heap) :=
  match h.kalloc with
  | none => none
  | some (page, h) => some (page, h.memset page 0)

/-- What a page table has for a virtual address: the physical page and the flags. -/
def lookup (h : Heap) (pagetable va : Word) : Option (Word × Flags) :=
  match walk h pagetable va false with
  | .ok (some pte, _) =>
    if h.mem pte &&& PTE_V ≠ 0 then some (PTE2PA (h.mem pte), (h.mem pte).setWidth 10) else none
  | _ => none

/-! ## Bits -/

abbrev Index := BitVec 9

def index (level : Nat) (va : Word) : Index := (va >>> PXSHIFT level).setWidth 9

def Aligned (a : Word) : Prop := a.toNat % PGSIZE = 0
  deriving Decidable

def IsPage (va : Word) : Prop := Aligned va ∧ va < MAXVA

/-- The address without the offset in its page. -/
def pageOf (a : Word) : Word := (a >>> 12) <<< 12

/-- The entry for a page with flags. -/
def encode (pa : Word) (flags : Flags) : Word := PA2PTE pa ||| flags.setWidth 64

/-- The entry that `mappages` stores. -/
def mkPte (pa : Word) (perm : Flags) : Word := PA2PTE pa ||| perm.setWidth 64 ||| PTE_V

section Bits

variable {a t t' : Word} {i j : Index}

theorem PX_eq (level : Nat) (va : Word) : PX level va = (index level va).setWidth 64 := by
  unfold PX index
  apply eq_of_toNat_eq
  simp only [toNat_and, toNat_setWidth, toNat_ushiftRight]
  rw [show (0x1FF : Word).toNat = 2 ^ 9 - 1 from rfl, Nat.and_two_pow_sub_one_eq_mod]
  omega

theorem index_toNat (level : Nat) (va : Word) :
    (index level va).toNat = va.toNat / 2 ^ PXSHIFT level % 512 := by
  unfold index
  rw [toNat_setWidth, toNat_ushiftRight, Nat.shiftRight_eq_div_pow]

theorem page_eq (hv : IsPage v) (hw : IsPage w) (two : index 2 v = index 2 w)
    (one : index 1 v = index 1 w) (zero : index 0 v = index 0 w) : v = w := by
  have two := congrArg BitVec.toNat two
  have one := congrArg BitVec.toNat one
  have zero := congrArg BitVec.toNat zero
  simp only [index_toNat, PXSHIFT] at two one zero
  have hv' : v.toNat < 2 ^ 38 := hv.2
  have hw' : w.toNat < 2 ^ 38 := hw.2
  have av : v.toNat % 4096 = 0 := hv.1
  have aw : w.toNat % 4096 = 0 := hw.1
  apply eq_of_toNat_eq
  omega

theorem PTE2PA_encode (pa : Word) (flags : Flags) : PTE2PA (encode pa flags) = pageOf pa := by
  unfold PTE2PA encode PA2PTE pageOf
  ext k inside
  by_cases low : k < 12
  · simp [low]
  · have wide : 10 + (k - 12) < 64 := by omega
    simp [low, wide]

theorem setWidth_encode (pa : Word) (flags : Flags) : (encode pa flags).setWidth 10 = flags := by
  unfold encode PA2PTE
  ext k inside
  simp

theorem PTE_FLAGS_eq (pte : Word) : PTE_FLAGS pte = (pte.setWidth 10).setWidth 64 := by
  unfold PTE_FLAGS
  apply eq_of_toNat_eq
  simp only [toNat_and, toNat_setWidth]
  rw [show (0x3FF : Word).toNat = 2 ^ 10 - 1 from rfl, Nat.and_two_pow_sub_one_eq_mod]
  omega

theorem mkPte_eq (pa : Word) (perm : Flags) : mkPte pa perm = encode pa (perm ||| 1) := by
  unfold mkPte encode PTE_V
  rw [BitVec.setWidth_or, BitVec.or_assoc]
  rfl

theorem valid_mkPte (pa : Word) (perm : Flags) : mkPte pa perm &&& PTE_V ≠ 0 := by
  intro zero
  have bit := congrArg (BitVec.getLsbD · 0) zero
  simp [mkPte, PTE_V] at bit

theorem pageOf_aligned (aligned : Aligned a) : pageOf a = a := by
  unfold pageOf
  apply eq_of_toNat_eq
  simp only [BitVec.toNat_shiftLeft, toNat_ushiftRight, Nat.shiftLeft_eq,
    Nat.shiftRight_eq_div_pow]
  unfold Aligned PGSIZE at aligned
  omega

theorem entry_toNat (aligned : Aligned t) (i : Index) :
    (entry t (i.setWidth 64)).toNat = t.toNat + 8 * i.toNat := by
  unfold Aligned PGSIZE at aligned
  unfold entry
  rw [toNat_add, toNat_mul, toNat_setWidth, show (8 : Word).toNat = 8 from rfl]
  omega

theorem entry_page (aligned : Aligned t) (i : Index) :
    (entry t (i.setWidth 64)).toNat / PGSIZE = t.toNat / PGSIZE := by
  rw [entry_toNat aligned]
  unfold Aligned PGSIZE at *
  omega

theorem entry_inj (aligned : Aligned t) (aligned' : Aligned t')
    (same : entry t (i.setWidth 64) = entry t' (j.setWidth 64)) : t = t' ∧ i = j := by
  have same := congrArg BitVec.toNat same
  rw [entry_toNat aligned, entry_toNat aligned'] at same
  unfold Aligned PGSIZE at aligned aligned'
  exact ⟨eq_of_toNat_eq (by omega), eq_of_toNat_eq (by omega)⟩

theorem page_ne (aligned : Aligned t) (aligned' : Aligned t') (ne : t ≠ t') :
    t.toNat / PGSIZE ≠ t'.toNat / PGSIZE := by
  intro same
  unfold Aligned PGSIZE at *
  exact ne (eq_of_toNat_eq (by omega))

end Bits

/-! ## The tree -/

/-- The table that an entry of an inner table points to. -/
def next (w : Word) : Option Word := if w &&& PTE_V ≠ 0 then some (PTE2PA w) else none

/-- What an entry of a last table says. -/
def decode (w : Word) : Option (Word × Flags) :=
  if w &&& PTE_V ≠ 0 then some (PTE2PA w, w.setWidth 10) else none

def Heap.words (h : Heap) (t : Word) (i : Index) : Word := h.mem (entry t (i.setWidth 64))

/-- The tables for the paths of a page table. -/
def Heap.tables (h : Heap) (root : Word) : List Index → Option Word :=
  Radix.tables next h.words root 3

/-- What the page table has at the end of a path. -/
def Heap.view (h : Heap) (root : Word) (path : List Index) (i : Index) : Option (Word × Flags) :=
  (Radix.leaf next h.words root 3 path i).bind decode

/-- The tables and the free pages are all different pages. -/
def Wf (h : Heap) (root : Word) : Prop :=
  Owned (h.free : Multiset Word) (h.tables root) (¬ Aligned ·) (¬ Aligned ·)

/-- The path to the last table for an address. -/
def path (va : Word) : List Index := [index 1 va, index 2 va]

section Tree

variable {h h' : Heap} {root t va : Word} {q : List Index} {level : Nat}

theorem Wf.aligned (wf : Wf h root) (here : h.tables root q = some t) : Aligned t :=
  Classical.not_not.mp (wf.own_apart here)

theorem Wf.words_store (wf : Wf h root) (here : h.tables root q = some t) (i : Index) (w : Word) :
    (h.store (entry t (i.setWidth 64)) w).words t i = w ∧
    ∀ q' t' j, h.tables root q' = some t' → t' ≠ t ∨ j ≠ i →
      (h.store (entry t (i.setWidth 64)) w).words t' j = h.words t' j := by
  refine ⟨update_self _ _ _, fun q' t' j found ne => update_of_ne (fun same => ?_) _ _⟩
  obtain ⟨rfl, rfl⟩ := entry_inj (wf.aligned found) (wf.aligned here) same
  exact ne.elim (fun ne => ne rfl) fun ne => ne rfl

theorem Wf.words_memset (wf : Wf h root) (aligned : Aligned page)
    (out : ∀ q, h.tables root q ≠ some page) (w : Word) (q : List Index) (t : Word)
    (found : h.tables root q = some t) (i : Index) : (h.memset page w).words t i = h.words t i := by
  have ne : t ≠ page := by
    rintro rfl
    exact out q found
  refine if_neg ?_
  rw [entry_page (wf.aligned found)]
  exact page_ne (wf.aligned found) aligned ne

theorem down_read (here : h.tables root q = some t) (inner : q.length + 1 < 3) :
    down h t level va false = (h.tables root (index level va :: q), h) := by
  have step : h.tables root (index level va :: q) = next (h.words t (index level va)) := by
    unfold Heap.tables
    rw [Radix.tables_cons inner]
    exact congrArg (Option.bind · _) here
  rw [step]
  unfold down next Heap.words
  dsimp only
  rw [PX_eq]
  split <;> rfl

theorem tables_root (h : Heap) (root : Word) : h.tables root [] = some root := rfl

theorem tables_nested (absent : h.tables root [index 2 va] = none) :
    h.tables root (path va) = none := by
  unfold Heap.tables path at *
  rw [Radix.tables_cons (show 1 + 1 < 3 by decide), absent]
  rfl

theorem walk_read (below : va < MAXVA) :
    walk h root va false =
      .ok ((h.tables root (path va)).map fun low => entry low ((index 0 va).setWidth 64), h) := by
  unfold walk
  rw [if_neg (by bv_omega), down_read (tables_root h root) (by decide)]
  cases found : h.tables root [index 2 va] with
  | none => rw [tables_nested found]; rfl
  | some mid =>
    dsimp only
    rw [down_read found (show 1 + 1 < 3 by decide)]
    show _ = Except.ok (Option.map _ (h.tables root [index 1 va, index 2 va]), h)
    cases h.tables root [index 1 va, index 2 va] with
    | none => rfl
    | some low =>
      rw [PX_eq]
      rfl

theorem lookup_eq (below : va < MAXVA) : lookup h root va = h.view root (path va) (index 0 va) := by
  unfold lookup Heap.view Radix.leaf
  rw [walk_read below]
  show _ = ((h.tables root (path va)).map _).bind decode
  cases h.tables root (path va) with
  | none => rfl
  | some low => rfl

/-- New tables may have come, and what the page table says is the same. -/
structure Extends (root : Word) (h h' : Heap) : Prop where
  wf : Wf h' root
  more : ∀ {q t}, h.tables root q = some t → h'.tables root q = some t
  view : ∀ {q}, q.length = 2 → ∀ i, h'.view root q i = h.view root q i

theorem Wf.extends_refl (wf : Wf h root) : Extends root h h :=
  ⟨wf, fun found => found, fun _ _ => rfl⟩

theorem Extends.trans (first : Extends root h h') (second : Extends root h' h'') :
    Extends root h h'' :=
  ⟨second.wf, fun found => second.more (first.more found),
    fun short i => (second.view short i).trans (first.view short i)⟩

theorem next_link (aligned : Aligned page) : next (PA2PTE page ||| PTE_V) = some page := by
  have is : PA2PTE page ||| PTE_V = mkPte page 0 := by
    unfold mkPte
    rw [show BitVec.setWidth 64 (0 : Flags) = 0#64 from rfl, BitVec.or_zero]
  unfold next
  rw [is, if_pos (valid_mkPte page 0), mkPte_eq, PTE2PA_encode, pageOf_aligned aligned]

/-- A page from the free list becomes a table, with all its entries 0. -/
theorem Wf.link (wf : Wf h root) (here : h.tables root q = some t) (inner : q.length + 1 < 3)
    (absent : h.tables root (i :: q) = none) (free : h.free = page :: rest) {h1 : Heap}
    (free1 : h1.free = rest)
    (mem1 : ∀ a, a.toNat / PGSIZE ≠ page.toNat / PGSIZE → h1.mem a = h.mem a) :
    let h' := (h1.memset page 0).store (entry t (i.setWidth 64)) (PA2PTE page ||| PTE_V)
    Extends root h h' ∧ h'.tables root (i :: q) = some page := by
  intro h'
  have pool : Owned (page ::ₘ (rest : Multiset Word)) (h.tables root) (¬ Aligned ·)
      (¬ Aligned ·) := by
    have owned := wf
    unfold Wf at owned
    rw [free] at owned
    exact owned
  obtain ⟨-, isAligned, out⟩ := pool.fresh
  have isAligned : Aligned page := Classical.not_not.mp isAligned
  have away {q' : List Index} {t' : Word} (found : h.tables root q' = some t') (j : Index) :
      (entry t' (j.setWidth 64)).toNat / PGSIZE ≠ page.toNat / PGSIZE := by
    rw [entry_page (wf.aligned found)]
    refine page_ne (wf.aligned found) isAligned ?_
    rintro rfl
    exact out q' found
  have linked : next (h'.words t i) = some page := by
    have is : h'.words t i = PA2PTE page ||| PTE_V := update_self _ _ _
    rw [is, next_link isAligned]
  have zero (j : Index) : h'.words page j = 0 := by
    have ne : entry page (j.setWidth 64) ≠ entry t (i.setWidth 64) := by
      intro same
      obtain ⟨rfl, -⟩ := entry_inj isAligned (wf.aligned here) same
      exact out q here
    exact (update_of_ne ne _ _).trans (if_pos (entry_page isAligned j))
  have same : ∀ q' t' j, h.tables root q' = some t' → t' ≠ t ∨ j ≠ i →
      h'.words t' j = h.words t' j := by
    intro q' t' j found ne
    have other : entry t' (j.setWidth 64) ≠ entry t (i.setWidth 64) := by
      intro is
      obtain ⟨rfl, rfl⟩ := entry_inj (wf.aligned found) (wf.aligned here) is
      exact ne.elim (fun ne => ne rfl) fun ne => ne rfl
    exact (update_of_ne other _ _).trans
      ((if_neg (away found j)).trans (mem1 _ (away found j)))
  have was : next (h.words t i) = none := by
    unfold Heap.tables at absent here
    rwa [Radix.tables_cons inner, here] at absent
  have blank (j : Index) : next (h'.words page j) = none := by
    rw [zero]
    rfl
  have tables : h'.tables root = update (h.tables root) (i :: q) (some page) :=
    Radix.tables_link wf here same inner was linked blank
  refine ⟨⟨?_, fun {q' t'} found => ?_, fun {q'} short j => ?_⟩, ?_⟩
  · have free' : h'.free = rest := free1
    unfold Wf
    rw [free', tables]
    exact pool.grant (i :: q) fun _ away => away
  · have ne : q' ≠ i :: q := by
      rintro rfl
      rw [absent] at found
      cases found
    rw [tables, update_of_ne ne]
    exact found
  · unfold Heap.view
    rw [Radix.leaf_link wf here same inner was linked blank (by rw [short])]
    split
    · next new =>
      subst new
      have nothing : Radix.leaf next h.words root 3 (i :: q) j = none :=
        congrArg (Option.map _) absent
      rw [nothing, zero]
      rfl
    · rfl
  · rw [tables, update_self]

theorem Wf.down (wf : Wf h root) (here : h.tables root q = some t) (inner : q.length + 1 < 3)
    (down : down h t level va true = (r, h')) :
    Extends root h h' ∧ ∀ {t'}, r = some t' → h'.tables root (index level va :: q) = some t' := by
  have step : h.tables root (index level va :: q) = next (h.words t (index level va)) := by
    unfold Heap.tables
    rw [Radix.tables_cons inner]
    exact congrArg (Option.bind · _) here
  unfold Sv39.down at down
  dsimp only at down
  rw [PX_eq] at down
  unfold next Heap.words at step
  split at down
  · next valid =>
    cases down
    refine ⟨wf.extends_refl, fun {t'} is => ?_⟩
    cases is
    rw [step, if_pos valid]
  · next invalid =>
    rw [if_neg invalid] at step
    rw [if_neg (by decide)] at down
    unfold Heap.kalloc at down
    split at down
    · cases down
      exact ⟨wf.extends_refl, nofun⟩
    rename_i page h1 alloc
    split at alloc
    · cases alloc
    rename_i rest free
    cases alloc
    cases down
    have junk : ({ h with free := rest }.memset page 0x0505050505050505).free = rest := rfl
    obtain ⟨extends_, there⟩ := wf.link here inner step free junk
      fun a other => if_neg other
    refine ⟨extends_, fun {t'} is => ?_⟩
    cases is
    exact there

/-- `walk` with `alloc` finds the way to the leaf entry, or runs out of memory. -/
theorem Wf.walk (wf : Wf h root) (walk : walk h root va true = .ok (r, h')) :
    va < MAXVA ∧ Extends root h h' ∧ ∀ {a}, r = some a →
      ∃ low, h'.tables root (path va) = some low ∧ a = entry low ((index 0 va).setWidth 64) := by
  unfold Sv39.walk at walk
  split at walk
  · cases walk
  refine ⟨by bv_omega, ?_⟩
  split at walk
  · next h1 first =>
    cases walk
    exact ⟨(wf.down (tables_root h root) (by decide) first).1, nofun⟩
  rename_i mid h1 first
  obtain ⟨extends1, there⟩ := wf.down (tables_root h root) (by decide) first
  split at walk
  · next h2 second =>
    cases walk
    exact ⟨extends1.trans
      (extends1.wf.down (there rfl) (show 1 + 1 < 3 by decide) second).1, nofun⟩
  rename_i low h2 second
  cases walk
  obtain ⟨extends2, there2⟩ :=
    extends1.wf.down (there rfl) (show 1 + 1 < 3 by decide) second
  refine ⟨extends1.trans extends2, fun {a} is => ⟨low, there2 rfl, ?_⟩⟩
  cases is
  rw [PX_eq]

theorem Wf.store (wf : Wf h root) (here : h.tables root (path va) = some low) (w : Word) :
    let h' := h.store (entry low ((index 0 va).setWidth 64)) w
    Wf h' root ∧ h'.tables root = h.tables root ∧
    ∀ {q} i, q.length = 2 → h'.view root q i =
      if q = path va ∧ i = index 0 va then decode w else h.view root q i := by
  intro h'
  obtain ⟨is, same⟩ := wf.words_store here (index 0 va) w
  have tables : h'.tables root = h.tables root := Radix.tables_store wf here same rfl
  refine ⟨?_, tables, fun {q} i short => ?_⟩
  · unfold Wf
    rw [tables]
    exact wf
  unfold Heap.view
  rw [Radix.leaf_store wf here same rfl]
  split
  · rw [is]
    rfl
  · rfl

end Tree

/-! ## The map -/

section Map

variable {h h' : Heap} {root va w : Word}

theorem Extends.lookup_same (more : Extends root h h') (below : va < MAXVA) :
    lookup h' root va = lookup h root va := by
  rw [lookup_eq below, lookup_eq below, more.view rfl]

theorem decode_mkPte (pa : Word) (perm : Flags) :
    decode (mkPte pa perm) = some (pageOf pa, perm ||| 1) := by
  unfold decode
  rw [if_pos (valid_mkPte pa perm), mkPte_eq, PTE2PA_encode, setWidth_encode]

theorem Wf.store_lookup (wf : Wf h root) (here : h.tables root (path va) = some low)
    (page : IsPage va) (v : Word) (isPage : IsPage w) :
    lookup (h.store (entry low ((index 0 va).setWidth 64)) v) root w =
      if w = va then decode v else lookup h root w := by
  rw [lookup_eq isPage.2, lookup_eq isPage.2, (wf.store here v).2.2 (index 0 w) rfl]
  by_cases same : w = va
  · rw [if_pos same, if_pos ⟨by rw [same], by rw [same]⟩]
  · rw [if_neg same]
    refine if_neg fun at_ => same ?_
    obtain ⟨one, rest⟩ := List.cons.inj at_.1
    exact page_eq isPage page (List.cons.inj rest).1 one at_.2

def pages (a : Word) (i : Nat) : Word := a + BitVec.ofNat 64 (i * PGSIZE)

theorem pages_zero (a : Word) : pages a 0 = a := by
  exact BitVec.add_zero a

theorem pages_succ (a : Word) (i : Nat) : pages (a + pgsize) i = pages a (i + 1) := by
  unfold pages pgsize
  rw [BitVec.add_assoc, ← BitVec.ofNat_add, Nat.succ_mul, Nat.add_comm PGSIZE]

theorem pages_ne (a : Word) (positive : 0 < i) (small : i < 2 ^ 52) : pages a i ≠ a := by
  intro same
  have same := congrArg BitVec.toNat same
  unfold pages PGSIZE at same
  rw [toNat_add, toNat_ofNat] at same
  omega

theorem IsPage.next (page : IsPage va) : Aligned (va + pgsize) ∧
    (va + pgsize).toNat = va.toNat + PGSIZE := by
  have aligned := page.1
  have below : va.toNat < 2 ^ 38 := page.2
  have sum : (va + pgsize).toNat = va.toNat + PGSIZE := by
    unfold pgsize
    rw [toNat_add, toNat_ofNat]
    unfold PGSIZE
    omega
  refine ⟨?_, sum⟩
  unfold Aligned at *
  rw [sum, Nat.add_mod_right]
  exact aligned

/-- The first `m` pages from `a` on are mapped to those from `pa` on, and nothing else. -/
structure Mapped (root : Word) (h h' : Heap) (a pa : Word) (perm : Flags) (m : Nat) : Prop where
  wf : Wf h' root
  inside : ∀ i < m, lookup h' root (pages a i) = some (pageOf (pages pa i), perm ||| 1)
  outside : ∀ w, IsPage w → (∀ i < m, w ≠ pages a i) → lookup h' root w = lookup h root w

theorem Wf.mapped_one (wf : Wf h root) (aligned : Aligned a)
    (walk : Sv39.walk h root a true = .ok (some pte, h1)) (perm : Flags) :
    IsPage a ∧ Mapped root h (h1.store pte (mkPte pa perm)) a pa perm 1 := by
  obtain ⟨below, more, way⟩ := wf.walk walk
  obtain ⟨low, there, rfl⟩ := way rfl
  have page : IsPage a := ⟨aligned, below⟩
  refine ⟨page, (more.wf.store there _).1, fun i below => ?_, fun w isPage other => ?_⟩
  · obtain rfl : i = 0 := Nat.lt_one_iff.mp below
    rw [pages_zero, pages_zero, more.wf.store_lookup there page _ page, if_pos rfl, decode_mkPte]
  · have ne := other 0 Nat.one_pos
    rw [pages_zero] at ne
    rw [more.wf.store_lookup there page _ isPage, if_neg ne, more.lookup_same isPage.2]

theorem Mapped.cons (page : IsPage a) (first : Mapped root h h1 a pa perm 1)
    (rest : Mapped root h1 h' (a + pgsize) (pa + pgsize) perm m) (small : m + 1 < 2 ^ 52) :
    Mapped root h h' a pa perm (m + 1) := by
  refine ⟨rest.wf, fun i below => ?_, fun w isPage other => ?_⟩
  · cases i with
    | zero =>
      rw [pages_zero, rest.outside a page, ← pages_zero a, first.inside 0 Nat.one_pos]
      intro i less same
      rw [pages_succ] at same
      exact pages_ne a (Nat.succ_pos i) (by omega) same.symm
    | succ i =>
      rw [← pages_succ, ← pages_succ]
      exact rest.inside i (Nat.lt_of_succ_lt_succ below)
  · rw [rest.outside w isPage, first.outside w isPage]
    · intro i less
      obtain rfl : i = 0 := Nat.lt_one_iff.mp less
      exact other 0 (Nat.succ_pos m)
    · intro i less
      rw [pages_succ]
      exact other (i + 1) (Nat.succ_lt_succ less)

theorem mapLoop_mapped (n : Nat) (wf : Wf h root) (aligned : Aligned a) (small : n < 2 ^ 52)
    (ends : 0 < n → last = pages a (n - 1)) (run : mapLoop root last perm n h a pa = .ok (r, h')) :
    ∃ m, (if r then m = n else m < n) ∧ Mapped root h h' a pa perm m := by
  induction n generalizing h a pa with
  | zero =>
    cases run
    exact ⟨0, rfl, wf, nofun, fun _ _ _ => rfl⟩
  | succ n ih =>
    unfold mapLoop at run
    split at run
    · cases run
    · next h1 walk =>
      cases run
      obtain ⟨-, more, -⟩ := wf.walk walk
      exact ⟨0, Nat.succ_pos n, more.wf, nofun, fun w page _ => more.lookup_same page.2⟩
    rename_i pte h1 walk
    obtain ⟨page, first⟩ : IsPage a ∧ Mapped root h (h1.store pte (mkPte pa perm)) a pa perm 1 :=
      wf.mapped_one aligned walk perm
    split at run
    · cases run
    split at run
    · next atLast =>
      cases run
      -- the last page is the only one
      have one : n = 0 := by
        refine Nat.eq_zero_of_not_pos fun positive => ?_
        exact pages_ne a positive (Nat.lt_of_succ_lt small)
          ((ends (Nat.succ_pos n)).symm.trans atLast.symm)
      subst one
      exact ⟨1, rfl, first⟩
    · next notLast =>
      have positive : 0 < n := by
        refine Nat.pos_of_ne_zero fun zero => notLast ?_
        subst zero
        rw [ends (Nat.succ_pos 0), pages_zero]
      have ends' : last = pages (a + pgsize) (n - 1) := by
        rw [pages_succ, ends (Nat.succ_pos n)]
        congr 1
        omega
      obtain ⟨m, done, rest⟩ := ih first.wf page.next.1 (by omega) (fun _ => ends') run
      have le : m ≤ n := by
        split at done <;> omega
      refine ⟨m + 1, ?_, Mapped.cons page first rest (by omega)⟩
      cases r with
      | true => exact congrArg (· + 1) done
      | false => exact Nat.succ_lt_succ done

theorem mappages_mapped (wf : Wf h root) (run : mappages h root va size pa perm = .ok (r, h')) :
    ∃ m, (if r then m = size.toNat / PGSIZE else m < size.toNat / PGSIZE) ∧
      Mapped root h h' va pa perm m := by
  unfold mappages at run
  split at run
  · cases run
  rename_i aligned
  split at run
  · cases run
  split at run
  · cases run
  have small : size.toNat / PGSIZE < 2 ^ 52 := by
    unfold PGSIZE
    omega
  refine mapLoop_mapped _ wf (Classical.not_not.mp aligned) small (fun positive => ?_) run
  apply eq_of_toNat_eq
  unfold pages pgsize PGSIZE at *
  rw [BitVec.toNat_sub, toNat_add, toNat_add, toNat_ofNat,
    toNat_ofNat]
  omega

/-- No page that `uvmunmap` is to free from `a` up to the bound is free or a table, and none is
mapped twice. -/
structure Freeable (root bound : Word) (h : Heap) (a : Word) : Prop where
  out : ∀ {w pa f}, IsPage w → a.toNat ≤ w.toNat → w < bound → lookup h root w = some (pa, f) →
    pa ∉ h.free ∧ ∀ q, h.tables root q ≠ some pa
  once : ∀ {w w' pa f f'}, IsPage w → a.toNat ≤ w.toNat → w < bound →
    IsPage w' → a.toNat ≤ w'.toNat → w' < bound →
    lookup h root w = some (pa, f) → lookup h root w' = some (pa, f') → w = w'

theorem Wf.kfree (wf : Wf h root) (run : h.kfree pa = .ok h') (out : pa ∉ h.free)
    (notTable : ∀ q, h.tables root q ≠ some pa) :
    Extends root h h' ∧ h'.tables root = h.tables root ∧ h'.free = pa :: h.free := by
  unfold Heap.kfree at run
  split at run
  · cases run
  rename_i good
  cases run
  have aligned : Aligned pa := Classical.not_not.mp fun bad => good (.inl bad)
  have same := wf.words_memset aligned notTable 0x0101010101010101
  have tables : (h.memset pa 0x0101010101010101).tables root = h.tables root :=
    Radix.tables_outside same
  refine ⟨⟨?_, fun {q t} found => ?_, fun {q} _ i => ?_⟩, tables, rfl⟩
  · show Owned (pa ::ₘ (h.free : Multiset Word)) ((h.memset pa 0x0101010101010101).tables root) _ _
    rw [tables]
    exact wf.give out notTable fun bad => bad aligned
  · exact (congrFun tables q).trans found
  · exact congrArg (Option.bind · decode) (congrFun (congrFun (Radix.leaf_outside same) q) i)

/-- The map after `uvmunmap`: the pages from `a` up to the bound, but at most `n`, are gone. -/
def Cleared (root bound : Word) (n : Nat) (h h' : Heap) (a : Word) : Prop :=
  ∀ w, IsPage w → lookup h' root w =
    if a.toNat ≤ w.toNat ∧ w < bound ∧ w.toNat < a.toNat + n * PGSIZE then none
    else lookup h root w

/-- One page is unmapped; if it has been freed, it is on the free list. -/
structure Unmapped (root : Word) (h h1 : Heap) (a : Word) : Prop where
  wf : Wf h1 root
  map : ∀ w, IsPage w → lookup h1 root w = if w = a then none else lookup h root w
  tables : h1.tables root = h.tables root
  free : h1.free = h.free ∨ ∃ pa f, lookup h root a = some (pa, f) ∧ h1.free = pa :: h.free

theorem Cleared.cons (page : IsPage a) (before : a < bound) (first : Unmapped root h h1 a)
    (rest : Cleared root bound n h1 h' (a + pgsize)) : Cleared root bound (n + 1) h h' a := by
  intro w isPage
  rw [rest w isPage, first.map w isPage]
  have next := page.next.2
  have aligned : a.toNat % PGSIZE = 0 := page.1
  have aligned' : w.toNat % PGSIZE = 0 := isPage.1
  by_cases here : w = a
  · subst here
    have inside : w.toNat ≤ w.toNat ∧ w < bound ∧ w.toNat < w.toNat + (n + 1) * PGSIZE := by
      refine ⟨le_rfl, before, Nat.lt_add_of_pos_right ?_⟩
      exact Nat.mul_pos (Nat.succ_pos n) (by decide)
    rw [if_pos inside, if_pos rfl]
    exact ite_self _
  · have ne : w.toNat ≠ a.toNat := fun same => here (eq_of_toNat_eq same)
    have range : ((a + pgsize).toNat ≤ w.toNat ∧ w < bound ∧
        w.toNat < (a + pgsize).toNat + n * PGSIZE) ↔
        (a.toNat ≤ w.toNat ∧ w < bound ∧ w.toNat < a.toNat + (n + 1) * PGSIZE) := by
      unfold PGSIZE at *
      constructor
      · rintro ⟨le, before, less⟩
        exact ⟨by omega, before, by omega⟩
      · rintro ⟨le, before, less⟩
        exact ⟨by omega, before, by omega⟩
    rw [if_neg here]
    exact if_congr range rfl rfl

theorem Freeable.next (freeable : Freeable root bound h a) (page : IsPage a) (before : a < bound)
    (first : Unmapped root h h1 a) : Freeable root bound h1 (a + pgsize) := by
  have later {w : Word} (le : (a + pgsize).toNat ≤ w.toNat) : a.toNat ≤ w.toNat ∧ w ≠ a := by
    rw [page.next.2] at le
    unfold PGSIZE at le
    exact ⟨by omega, fun same => by rw [same] at le; omega⟩
  have old {w : Word} {x : Word × Flags} (isPage : IsPage w)
      (le : (a + pgsize).toNat ≤ w.toNat) (found : lookup h1 root w = some x) :
      lookup h root w = some x := by
    rwa [first.map w isPage, if_neg (later le).2] at found
  refine ⟨fun {w pa f} isPage le inside found => ?_,
    fun {w w' pa f f'} isPage le inside isPage' le' inside' found found' => ?_⟩
  · obtain ⟨out, notTable⟩ := freeable.out isPage (later le).1 inside (old isPage le found)
    refine ⟨?_, fun q => by rw [first.tables]; exact notTable q⟩
    rcases first.free with same | ⟨pa', f', here, more⟩
    · rwa [same]
    rw [more]
    intro mem
    rcases List.mem_cons.mp mem with rfl | mem
    · exact (later le).2 (freeable.once isPage (later le).1 inside page le_rfl before
        (old isPage le found) here)
    · exact out mem
  · exact freeable.once isPage (later le).1 inside isPage' (later le').1 inside'
      (old isPage le found) (old isPage' le' found')

theorem Wf.unmapped_none (wf : Wf h root) (none : lookup h root a = none) :
    Unmapped root h h a := by
  refine ⟨wf, fun w _ => ?_, rfl, .inl rfl⟩
  split
  · next same => rw [same, none]
  · rfl

theorem Extends.unmapped (more : Extends root h h1) (page : IsPage a)
    (there : h.tables root (path a) = some low) (tables : h1.tables root = h.tables root)
    (free : h1.free = h.free ∨ ∃ pa f, lookup h root a = some (pa, f) ∧ h1.free = pa :: h.free) :
    Unmapped root h (h1.store (entry low ((index 0 a).setWidth 64)) 0) a := by
  have there1 := more.more there
  obtain ⟨wf, tables1, -⟩ := more.wf.store there1 0
  refine ⟨wf, fun w isPage => ?_, tables1.trans tables, free⟩
  rw [more.wf.store_lookup there1 page 0 isPage, more.lookup_same isPage.2]
  rfl

theorem lookup_at (below : va < MAXVA) : lookup h root va =
    (h.tables root (path va)).bind fun low =>
      decode (h.mem (entry low ((index 0 va).setWidth 64))) := by
  rw [lookup_eq below]
  show Option.bind (Option.map _ (h.tables root (path va))) decode = _
  cases h.tables root (path va) <;> rfl

theorem Wf.unmap_one (wf : Wf h root) (aligned : Aligned a) (before : a < bound)
    (freeable : doFree = true → Freeable root bound h a)
    (run : unmapLoop root bound doFree (n + 1) h a = .ok h') :
    IsPage a ∧ ∃ h1, Unmapped root h h1 a ∧
      unmapLoop root bound doFree n h1 (a + pgsize) = .ok h' := by
  unfold unmapLoop at run
  rw [if_pos before] at run
  by_cases below : a < MAXVA
  · have page : IsPage a := ⟨aligned, below⟩
    have found : lookup h root a = _ := lookup_at below
    refine ⟨page, ?_⟩
    rw [walk_read below] at run
    cases there : h.tables root (path a) with
    | none =>
      rw [there] at run found
      exact ⟨h, wf.unmapped_none found, run⟩
    | some low =>
      rw [there] at run found
      rw [bind_some] at found
      unfold decode at found
      dsimp only [Option.map_some] at run
      split at run
      · next invalid =>
        rw [if_neg fun valid => valid invalid] at found
        exact ⟨h, wf.unmapped_none found, run⟩
      rename_i valid
      rw [if_pos valid] at found
      cases doFree with
      | false => exact ⟨_, wf.extends_refl.unmapped page there rfl (.inl rfl), run⟩
      | true =>
        obtain ⟨out, notTable⟩ := (freeable rfl).out page le_rfl before found
        cases freed : h.kfree (PTE2PA (h.mem (entry low ((index 0 a).setWidth 64)))) with
        | error e =>
          rw [freed] at run
          cases run
        | ok h1 =>
          rw [freed] at run
          obtain ⟨more, tables, free⟩ := wf.kfree freed out notTable
          exact ⟨_, more.unmapped page there tables (.inr ⟨_, _, found, free⟩), run⟩
  · unfold Sv39.walk at run
    rw [if_pos (by bv_omega)] at run
    cases run

theorem unmapLoop_cleared (n : Nat) (wf : Wf h root) (aligned : Aligned a)
    (freeable : doFree = true → Freeable root bound h a)
    (run : unmapLoop root bound doFree n h a = .ok h') :
    Wf h' root ∧ Cleared root bound n h h' a := by
  induction n generalizing h a with
  | zero =>
    cases run
    exact ⟨wf, fun w _ => (if_neg fun inside => by omega).symm⟩
  | succ n ih =>
    by_cases before : a < bound
    · obtain ⟨page, h1, first, run⟩ := wf.unmap_one aligned before freeable run
      obtain ⟨wf', rest⟩ := ih first.wf page.next.1
        (fun is => (freeable is).next page before first) run
      exact ⟨wf', rest.cons page before first⟩
    · unfold unmapLoop at run
      rw [if_neg before] at run
      cases run
      exact ⟨wf, fun w _ => (if_neg fun inside => before (by bv_omega)).symm⟩

end Map

/-! ## All page tables -/

inductive Op
  | walk (va : Word)
  | mappages (va size pa : Word) (perm : Flags)
  | uvmunmap (va npages : Word) (doFree : Bool)
  | uvmclear (va : Word)
  deriving DecidableEq

/-- What the operations return that do not panic. -/
def exec (s : Word × Heap) : Op → Option ((Word × Heap) × Bool)
  | .walk va => (walk s.2 s.1 va true).toOption.map fun r => ((s.1, r.2), r.1.isSome)
  | .mappages va size pa perm =>
    (mappages s.2 s.1 va size pa perm).toOption.map fun r => ((s.1, r.2), r.1)
  | .uvmunmap va npages doFree =>
    (uvmunmap s.2 s.1 va npages doFree).toOption.map fun h => ((s.1, h), true)
  | .uvmclear va => (uvmclear s.2 s.1 va).toOption.map fun h => ((s.1, h), true)

/-- An empty page table, from an allocator whose free pages are different and aligned. -/
def Start (s : Word × Heap) : Prop :=
  ∃ h : Heap, h.free.Nodup ∧ (∀ page ∈ h.free, Aligned page) ∧ uvmcreate h = some s

def system : Lts (Word × Heap) (Op × Bool) := Lts.ofExec Start exec

/-- A page is freed with its mapping only if it is the user's. -/
def Contract (s : Word × Heap) : Op × Bool → Prop
  | (.uvmunmap va npages true, _) => Freeable s.1 (va + npages * pgsize) s.2 va
  | _ => True

section System

variable {h h' : Heap} {root va : Word}

theorem uvmcreate_wf (distinct : h.free.Nodup) (aligned : ∀ page ∈ h.free, Aligned page)
    (create : uvmcreate h = some (root, h')) : Wf h' root := by
  unfold uvmcreate Heap.kalloc at create
  cases free : h.free with
  | nil =>
    rw [free] at create
    cases create
  | cons page rest =>
    rw [free] at create distinct aligned
    cases create
    have isAligned : Aligned root := aligned root (List.mem_cons_self ..)
    obtain ⟨out, distinct⟩ := List.nodup_cons.mp distinct
    -- the root has no entries, so there are no other tables
    have tables : Heap.tables (({ h with free := rest }.memset root 0x0505050505050505).memset
        root 0) root = update (fun _ => none) [] (some root) := by
      funext q
      induction q with
      | nil => rfl
      | cons i q ih =>
        by_cases short : q.length + 1 < 3
        · unfold Heap.tables at ih ⊢
          rw [Radix.tables_cons short, ih]
          by_cases top : q = []
          · subst top
            rw [update_self, bind_some]
            have zero : Heap.words (({ h with free := rest }.memset root 0x0505050505050505).memset
                root 0) root i = 0 := if_pos (entry_page isAligned i)
            rw [zero]
            rfl
          · rw [update_of_ne top]
            rfl
        · exact if_neg short
    have none : Owned (rest : Multiset Word) (fun _ : List Index => (none : Option Word))
        (¬ Aligned ·) (¬ Aligned ·) := by
      refine .of_none (Multiset.coe_nodup.mpr distinct) (fun bad mem => ?_) fun _ => rfl
      exact bad (aligned _ (List.mem_cons_of_mem _ mem))
    show Owned (rest : Multiset Word) (Heap.tables _ root) _ _
    rw [tables]
    exact none.assign [] out (fun _ => nofun) fun bad => bad isAligned

theorem Wf.uvmunmap (wf : Wf h root)
    (freeable : doFree = true → Freeable root (va + npages * pgsize) h va)
    (run : uvmunmap h root va npages doFree = .ok h') :
    Wf h' root ∧ Cleared root (va + npages * pgsize) npages.toNat h h' va := by
  unfold Sv39.uvmunmap at run
  split at run
  · cases run
  · next aligned => exact unmapLoop_cleared _ wf (Classical.not_not.mp aligned) freeable run

theorem decode_clear (w : Word) :
    decode (w &&& ~~~PTE_U) = (decode w).map fun x => (x.1, x.2 &&& ~~~(16 : Flags)) := by
  have valid : w &&& ~~~PTE_U &&& PTE_V = w &&& PTE_V := by
    rw [BitVec.and_assoc]
    rfl
  have page : PTE2PA (w &&& ~~~PTE_U) = PTE2PA w := by
    unfold PTE2PA
    ext k inside
    by_cases low : k < 12
    · simp [low]
    have wide : 10 + (k - 12) < 64 := by omega
    have high : PTE_U.getLsbD (10 + (k - 12)) = false := by
      have two : PTE_U = BitVec.twoPow 64 4 := rfl
      rw [two, BitVec.getLsbD_twoPow]
      simp
      omega
    rw [BitVec.getLsbD_eq_getElem wide] at high
    simp [low, wide, high]
  have flags : (w &&& ~~~PTE_U).setWidth 10 = w.setWidth 10 &&& ~~~(16 : Flags) := by
    rw [BitVec.setWidth_and]
    rfl
  unfold decode
  rw [valid, page, flags]
  split <;> rfl

theorem Wf.uvmclear (wf : Wf h root) (run : uvmclear h root va = .ok h') :
    Wf h' root ∧ (Aligned va → ∀ w, IsPage w → lookup h' root w =
      if w = va then (lookup h root va).map fun x => (x.1, x.2 &&& ~~~(16 : Flags))
      else lookup h root w) := by
  unfold Sv39.uvmclear at run
  by_cases below : va < MAXVA
  · rw [walk_read below] at run
    have found : lookup h root va = _ := lookup_at below
    cases there : h.tables root (path va) with
    | none =>
      rw [there] at run
      cases run
    | some low =>
      rw [there] at run found
      cases run
      refine ⟨(wf.store there _).1, fun aligned w isPage => ?_⟩
      rw [wf.store_lookup there ⟨aligned, below⟩ _ isPage, decode_clear, found]
      rfl
  · unfold Sv39.walk at run
    rw [if_pos (by bv_omega)] at run
    cases run

theorem Wf.of_reachable (reach : system.ReachableWhen Contract s) : Wf s.2 s.1 := by
  refine reach.invariant (P := fun s => Wf s.2 s.1) ?_ ?_
  · rintro ⟨root, h⟩ ⟨h0, distinct, aligned, create⟩
    exact uvmcreate_wf distinct aligned create
  rintro ⟨root, h⟩ ⟨op, r⟩ ⟨root', h'⟩ wf contract step
  cases op with
  | walk va =>
    obtain ⟨x, run, ⟨⟩⟩ := map_eq_some_iff.mp step
    exact (wf.walk (Outcome.ok_of_toOption run)).2.1.wf
  | mappages va size pa perm =>
    obtain ⟨x, run, ⟨⟩⟩ := map_eq_some_iff.mp step
    obtain ⟨m, -, mapped⟩ := mappages_mapped wf (Outcome.ok_of_toOption run)
    exact mapped.wf
  | uvmunmap va npages doFree =>
    obtain ⟨x, run, ⟨⟩⟩ := map_eq_some_iff.mp step
    refine (wf.uvmunmap (fun freed => ?_) (Outcome.ok_of_toOption run)).1
    subst freed
    exact contract
  | uvmclear va =>
    obtain ⟨x, run, ⟨⟩⟩ := map_eq_some_iff.mp step
    exact (wf.uvmclear (Outcome.ok_of_toOption run)).1

theorem Wf.slots_ne (wf : Wf h root) (hv : IsPage v) (hw : IsPage w) (ne : v ≠ w)
    (first : Sv39.walk h root v false = .ok (some a, h))
    (second : Sv39.walk h root w false = .ok (some b, h)) : a ≠ b := by
  rw [walk_read hv.2] at first
  rw [walk_read hw.2] at second
  obtain ⟨low, there, rfl⟩ := map_eq_some_iff.mp (Prod.mk.inj (Except.ok.inj first)).1
  obtain ⟨low', there', rfl⟩ := map_eq_some_iff.mp (Prod.mk.inj (Except.ok.inj second)).1
  intro same
  obtain ⟨rfl, zero⟩ := entry_inj (wf.aligned there) (wf.aligned there') same
  obtain ⟨one, rest⟩ := List.cons.inj (wf.inj there there')
  exact ne (page_eq hv hw (List.cons.inj rest).1 one zero)

end System

/-- A page table is a finite map: what `mappages`, `uvmunmap`, `uvmclear` and `walk` do to it, for
every page table that is built by these. A `mappages` that fails has mapped the first pages of
its range. Different pages have different entries, and an entry has the page and the flags that
were stored in it. -/
theorem page_table_is_map {s : Word × Heap} (reach : system.ReachableWhen Contract s) :
    (∀ va size pa perm h', mappages s.2 s.1 va size pa perm = .ok (true, h') →
      (∀ i < size.toNat / PGSIZE,
        lookup h' s.1 (pages va i) = some (pageOf (pages pa i), perm ||| 1)) ∧
      ∀ w, IsPage w → (∀ i < size.toNat / PGSIZE, w ≠ pages va i) →
        lookup h' s.1 w = lookup s.2 s.1 w) ∧
    (∀ va size pa perm h', mappages s.2 s.1 va size pa perm = .ok (false, h') →
      ∃ m < size.toNat / PGSIZE,
        (∀ i < m, lookup h' s.1 (pages va i) = some (pageOf (pages pa i), perm ||| 1)) ∧
        ∀ w, IsPage w → (∀ i < m, w ≠ pages va i) → lookup h' s.1 w = lookup s.2 s.1 w) ∧
    (∀ va n h', va.toNat + n.toNat * PGSIZE < 2 ^ 64 → uvmunmap s.2 s.1 va n false = .ok h' →
      ∀ w, IsPage w → lookup h' s.1 w =
        if va.toNat ≤ w.toNat ∧ w.toNat < va.toNat + n.toNat * PGSIZE then none
        else lookup s.2 s.1 w) ∧
    (∀ va h', Aligned va → uvmclear s.2 s.1 va = .ok h' → ∀ w, IsPage w → lookup h' s.1 w =
      if w = va then (lookup s.2 s.1 va).map fun x => (x.1, x.2 &&& ~~~(16 : Flags))
      else lookup s.2 s.1 w) ∧
    (∀ va r h', walk s.2 s.1 va true = .ok (r, h') →
      ∀ w, IsPage w → lookup h' s.1 w = lookup s.2 s.1 w) ∧
    (∀ v w a b, IsPage v → IsPage w → v ≠ w → walk s.2 s.1 v false = .ok (some a, s.2) →
      walk s.2 s.1 w false = .ok (some b, s.2) → a ≠ b) ∧
    ∀ pa flags, (Aligned pa → pageOf pa = pa) ∧ PTE2PA (encode pa flags) = pageOf pa ∧
      PTE_FLAGS (encode pa flags) = flags.setWidth 64 := by
  have wf := Wf.of_reachable reach
  refine ⟨fun va size pa perm h' run => ?_, fun va size pa perm h' run => ?_,
    fun va n h' fits run w page => ?_, fun va h' aligned run => (wf.uvmclear run).2 aligned,
    fun va r h' run w page => (wf.walk run).2.1.lookup_same page.2,
    fun v w a b => wf.slots_ne, fun pa flags => ⟨pageOf_aligned, PTE2PA_encode pa flags, ?_⟩⟩
  · obtain ⟨m, rfl, mapped⟩ := mappages_mapped wf run
    exact ⟨mapped.inside, mapped.outside⟩
  · obtain ⟨m, less, mapped⟩ := mappages_mapped wf run
    exact ⟨m, less, mapped.inside, mapped.outside⟩
  · rw [(wf.uvmunmap (fun freed => by cases freed) run).2 w page]
    have bound : (va + n * pgsize).toNat = va.toNat + n.toNat * PGSIZE := by
      unfold pgsize
      rw [toNat_add, toNat_mul, toNat_ofNat]
      unfold PGSIZE at *
      omega
    refine if_congr ?_ rfl rfl
    rw [BitVec.lt_def, bound]
    constructor
    · exact fun inside => ⟨inside.1, inside.2.2⟩
    · exact fun inside => ⟨inside.1, inside.2, inside.2⟩
  · rw [PTE_FLAGS_eq, setWidth_encode]

/-- Memory with four free pages, of which the first is the root of an empty page table. -/
def smallHeap : Heap where
  mem _ := 0
  free := [0x80001000, 0x80002000, 0x80003000, 0x80004000]
  first := 0x80001000

theorem page_table_is_map_small : ∃ root h h', system.ReachableWhen Contract (root, h) ∧
    mappages h root 0x1000 0x2000 0x80005000 6 = .ok (true, h') ∧
    lookup h' root 0x2000 = some (0x80006000, 7) := by
  have mapped : ((uvmcreate smallHeap).bind fun s =>
      (mappages s.2 s.1 0x1000 0x2000 0x80005000 6).toOption.map Prod.fst) = some true := by
    decide +kernel
  obtain ⟨⟨root, h⟩, create, run⟩ := Option.bind_eq_some_iff.mp mapped
  obtain ⟨⟨ok, h'⟩, run, rfl⟩ := map_eq_some_iff.mp run
  have run := Outcome.ok_of_toOption run
  have reach : system.ReachableWhen Contract (root, h) :=
    .init ⟨smallHeap, by decide, by simp [smallHeap, Aligned, PGSIZE], create⟩
  have two : 1 < (0x2000 : Word).toNat / PGSIZE := by
    decide
  have second := ((page_table_is_map reach).1 0x1000 0x2000 0x80005000 6 h' run).1 1 two
  exact ⟨root, h, h', reach, run, second⟩

end Xv6.Vm.Sv39
